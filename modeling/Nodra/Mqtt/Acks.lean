import Nodra.Mqtt.Steps

/-! Acknowledgements and the handler: if no call of the handler fails for a message above QoS 0,
then an acknowledged message is one that the handler has taken. -/
namespace Nodra.Mqtt
open Lines Router Std Interleave Program

section

def Accepted (b : Broker) : Prop :=
  ∀ conn index msg, .acked conn index msg ∈ b.history → .handled conn index msg true ∈ b.history

def HoldsQoS2 (b : Broker) : Prop :=
  ∀ (conn pid : Nat) (pending : Pending), (b.client conn).qos2Pending[pid]? = some pending → pending.msg.qos = 2

def HandlerTakes (label : Label) (choice : Choice) : Prop :=
  match label.point with
  | .handle msg => 0 < msg.qos → choice.fails = false
  | _ => True

instance (label : Label) (choice : Choice) : Decidable (HandlerTakes label choice) := by
  unfold HandlerTakes
  exact match label.point with
    | .accept | .read _ | .write .. | .handle _ | .resume _ | .publish _ | .put _ | .delete _ | .leave | .client _
    | .step => inferInstance

def Later (b b' : Broker) : Prop := ∀ o ∈ b.history, o ∈ b'.history

def ackContract : Contract Label Broker Choice where
  inv := fun b => Accepted b ∧ HoldsQoS2 b
  rely := fun _ => Later
  guar := fun _ _ => Later
  enabled := fun label choice _ => HandlerTakes label choice

structure Harmless (b b' : Broker) : Prop where
  later : Later b b'
  acked : ∀ conn index msg, .acked conn index msg ∈ b'.history → .acked conn index msg ∈ b.history
  pending : ∀ (conn pid : Nat) (pending : Pending), (b'.client conn).qos2Pending[pid]? = some pending →
    (b.client conn).qos2Pending[pid]? = some pending

variable {b b' b'' : Broker}

theorem Later.refl (b : Broker) : Later b b := fun _ ho => ho

theorem Later.trans (h : Later b b') (h' : Later b' b'') : Later b b'' := fun o ho => h' o (h o ho)

theorem later_observe (b : Broker) (os : List Observation) : Later b (b.observe os) :=
  fun _ => List.mem_append_left os

theorem Harmless.inv (h : Harmless b b') (hinv : Accepted b ∧ HoldsQoS2 b) : Accepted b' ∧ HoldsQoS2 b' := by
  refine ⟨?_, ?_⟩
  · intro conn index msg hacked
    exact h.later _ (hinv.1 conn index msg (h.acked conn index msg hacked))
  · intro conn pid pending hpending
    exact hinv.2 conn pid pending (h.pending conn pid pending hpending)

theorem Harmless.observe {os : List Observation} (h : Harmless b b')
    (hos : ∀ conn index msg, .acked conn index msg ∉ os) : Harmless b (b'.observe os) where
  later := h.later.trans (later_observe b' os)
  acked := by
    intro conn index msg hmem
    rcases List.mem_append.mp hmem with hold | hnew
    · exact h.acked conn index msg hold
    · exact absurd hnew (hos conn index msg)
  pending := h.pending

theorem harmless_of_eq (hhistory : b'.history = b.history)
    (hpending : ∀ conn, (b'.client conn).qos2Pending = (b.client conn).qos2Pending) : Harmless b b' where
  later := fun o ho => hhistory ▸ ho
  acked := fun conn index msg ho => hhistory ▸ ho
  pending := by
    intro conn pid pending h
    rw [← hpending]
    exact h

theorem harmless_setClient {target : Nat} {f : Client → Client}
    (h : ∀ cl, (f cl).qos2Pending = cl.qos2Pending) : Harmless b (b.setClient target f) := by
  refine harmless_of_eq rfl fun conn => ?_
  rw [client_setClient]
  split
  · next heq => rw [h, heq]
  · rfl

theorem harmless_rfl : Harmless b b := harmless_of_eq rfl fun _ => rfl

theorem harmless_of_idle (h : IdleChange b b') : Harmless b b' := by
  cases h with
  | none => exact harmless_rfl
  | wrote conn reply h => exact harmless_rfl.observe (by simp)
  | outgoing target f h =>
    apply harmless_setClient
    intro cl
    rw [h cl]
  | count conn now =>
    apply harmless_setClient
    intro cl
    simp only [Client.count]
    split <;> rfl

theorem harmless_of_publish {call : Call} {msg : Message} (h : PublishChange call msg b b') : Harmless b b' := by
  cases h with
  | send h =>
    cases h with
    | idle h => exact harmless_of_idle h
    | _ => exact harmless_rfl.observe (by simp)
  | reserve i => exact Harmless.observe (harmless_of_eq rfl fun _ => rfl) (by simp)
  | put i entry hclosed hcall => exact Harmless.observe (harmless_of_eq rfl fun _ => rfl) (by simp)

variable {conn : Nat} {clientID : String}

theorem harmless_of_replay {i : Nat} (h : ReplayChange conn i b b') : Harmless b b' := by
  cases h with
  | idle h => exact harmless_of_idle h
  | remove entry hclosed => exact Harmless.observe (harmless_of_eq rfl fun _ => rfl) (by simp)
  | _ => exact harmless_rfl.observe (by simp)

theorem harmless_of_discard (h : DiscardChange conn clientID b b') : Harmless b b' := by
  cases h with
  | none => exact harmless_rfl
  | forget => exact Harmless.observe (harmless_of_eq rfl fun _ => rfl) (by simp)
  | close i => exact harmless_of_eq rfl fun _ => rfl
  | delete c h =>
    refine Harmless.observe ?_ (by simp)
    rcases h with rfl | rfl
    · exact harmless_rfl
    · exact harmless_of_eq rfl fun _ => rfl

theorem harmless_of_join (h : JoinChange conn clientID b b') : Harmless b b' := by
  cases h with
  | none => exact harmless_rfl
  | found i h => exact harmless_rfl.observe (by simp)
  | opened h => exact Harmless.observe (harmless_of_eq rfl fun _ => rfl) (by simp)
  | session i => exact harmless_setClient fun _ => rfl
  | attach i => exact harmless_of_eq rfl fun _ => rfl
  | restore i => exact Harmless.observe (harmless_setClient fun _ => rfl) (by simp)

theorem harmless_of_connect (h : ConnectChange conn b b') : Harmless b b' := by
  cases h with
  | idle h => exact harmless_of_idle h
  | username username => exact harmless_setClient fun _ => rfl
  | discard clientID h => exact harmless_of_discard h
  | join clientID h => exact harmless_of_join h
  | replay i h => exact harmless_of_replay h

theorem harmless_of_subscribe (h : SubscribeChange conn b b') : Harmless b b' := by
  cases h with
  | idle h => exact harmless_of_idle h
  | grant granted => exact harmless_setClient fun _ => rfl
  | setSubs i all => exact Harmless.observe (harmless_of_eq rfl fun _ => rfl) (by simp)

theorem harmless_of_close (h : CloseChange conn b b') : Harmless b b' := by
  cases h with
  | none => exact harmless_rfl
  | leave => exact Harmless.observe (harmless_setClient fun _ => rfl) (by simp)
  | erase => exact harmless_of_eq rfl fun _ => rfl
  | detach i => exact Harmless.observe (harmless_of_eq rfl fun _ => rfl) (by simp)

theorem harmless_register (b : Broker) (conn : Nat) : Harmless b (b.register conn) where
  later := fun _ ho => ho
  acked := fun _ _ _ ho => ho
  pending := by
    intro other pid pending h
    rw [Broker.register, client_setClient] at h
    split at h
    · simp at h
    · exact h

theorem harmless_of_accept (h : AcceptChange conn b b') : Harmless b b' := by
  cases h with
  | none => exact harmless_rfl
  | refuse h => exact harmless_register b conn
  | register h => exact { harmless_register b conn with }
  | reserve h => exact harmless_of_eq rfl fun _ => rfl

end

section

variable {cfg : Config} {b : Broker} {conn : Nat} {α : Type}

abbrev KeepsAcks (post : α → Broker → Prop) (p : Act α) (b : Broker) : Prop := KeepsOk ackContract post p b

variable {p : Act α} {index : Nat} {payload : Bytes}

theorem keepsAcks_of_steps {change : Broker → Broker → Prop}
    (hp : StepsOk (Makes conn change) p) (h : ∀ b b', change b b' → Harmless b b') :
    KeepsAcks (fun _ b' => Later b b') p b := by
  apply hp.keeps Later.refl (fun _ _ _ => Later.trans) (fun _ _ _ _ _ h => h)
  intro label run choice b hmakes hinv _
  have hharmless := h _ _ (hmakes.2 choice b)
  exact ⟨hharmless.inv hinv, hharmless.later, hharmless.later⟩

theorem keepsAcks_idle (hp : StepsOk (Makes conn IdleChange) p) :
    KeepsAcks (fun _ b' => Later b b') p b :=
  keepsAcks_of_steps hp fun _ _ => harmless_of_idle

theorem keepsAcks_handle {msg : Message} (hcfg : cfg.handler = true) :
    KeepsAcks (fun _ b' => Later b b' ∧ (0 < msg.qos → .handled conn index msg true ∈ b'.history))
      (handle cfg conn index msg) b := by
  refine .ite (fun _ => ?_) fun hno => absurd hcfg hno
  apply KeepsOk.access
  intro b' hlater hinv choice htakes
  have hharmless : Harmless b' (b'.observe [.handled conn index msg !choice.fails]) :=
    Harmless.observe harmless_rfl (by simp)
  refine ⟨hharmless.inv hinv, hharmless.later, fun _ _ => ⟨Later.trans hlater hharmless.later, fun hqos => ?_⟩⟩
  have hok : choice.fails = false := htakes hqos
  simp [Broker.observe, hok]

theorem keepsAcks_write {reply : Reply} {msg : Message} (h : .handled conn index msg true ∈ b.history) :
    KeepsAcks (fun _ b' => Later b b') (write conn conn reply [.acked conn index msg]) b := by
  apply KeepsOk.access
  intro b' hlater hinv choice _
  split
  · exact ⟨hinv, .refl b', fun _ _ => hlater⟩
  · have hobserve := later_observe b' [.wrote conn reply, .acked conn index msg]
    refine ⟨⟨?_, hinv.2⟩, hobserve, fun _ _ => Later.trans hlater hobserve⟩
    intro conn' index' msg' hacked
    rcases List.mem_append.mp hacked with hold | hnew
    · exact hobserve _ (hinv.1 conn' index' msg' hold)
    · obtain ⟨rfl, rfl, rfl⟩ : conn' = conn ∧ index' = index ∧ msg' = msg := by simpa using hnew
      exact hobserve _ (hlater _ h)

theorem keepsAcks_publish {call : Call} {msg : Message} :
    KeepsAcks (fun _ b' => Later b b') (publish cfg call msg) b :=
  keepsAcks_of_steps steps_publish fun _ _ => harmless_of_publish

theorem keepsAcks_hold {pid : Nat} {pending : Pending} (hqos : pending.msg.qos = 2) :
    KeepsAcks (fun _ b' => Later b b')
      (update conn fun b => b.hold conn pid pending) b := by
  apply KeepsOk.access
  intro b' hlater hinv _ _
  have hnote : Harmless b' (b'.observe [.held conn pending.index pid]) := Harmless.observe harmless_rfl (by simp)
  refine ⟨⟨(hnote.inv hinv).1, ?_⟩, hnote.later, fun _ _ => Later.trans hlater hnote.later⟩
  intro other pid' pending' h
  change ((b'.setClient conn fun cl => { cl with qos2Pending := cl.qos2Pending.insert pid pending }).client
    other).qos2Pending[pid']? = some pending' at h
  rw [client_setClient] at h
  split at h
  · rw [ExtTreeMap.getElem?_insert] at h
    split at h
    · cases h
      exact hqos
    · exact hinv.2 conn pid' pending' h
  · exact hinv.2 other pid' pending' h

theorem keepsAcks_onPublish {flags : Nat} (hcfg : cfg.handler = true) :
    KeepsAcks (fun _ _ => True) (onPublish cfg conn index flags payload) b := by
  unfold onPublish
  split
  · exact .throw
  next msg pid _ =>
  refine .bind (keepsAcks_idle steps_requireCap) fun _ b₁ _ => ?_
  refine .bind (keepsAcks_idle steps_requireWrite) fun _ b₂ _ => .ite (fun hqos => ?_) fun _ => ?_
  · have hanswer {b : Broker} : KeepsAcks (fun _ b' => Later b b') (write conn conn (.pubrec pid) []) b := by
      refine keepsAcks_of_steps (steps_act fun choice b => ?_) fun _ _ h => h
      split
      · exact harmless_rfl
      · exact harmless_rfl.observe (by simp)
    refine .bind (keepsAcks_hold hqos) fun _ b₃ _ => .bind hanswer fun ok b₄ _ => ?_
    exact .ite (fun _ => .pure trivial) fun _ => .throw
  · refine .bind (keepsAcks_handle hcfg) fun _ b₃ ⟨_, hhandled⟩ => ?_
    refine .bind keepsAcks_publish fun _ b₄ h₄ => .ite (fun hqos => ?_) fun _ => .pure trivial
    have hacked : .handled conn index msg true ∈ b₄.history := h₄ _ (hhandled (by omega))
    exact (KeepsOk.discard (keepsAcks_write hacked)).mono fun _ _ _ => trivial

theorem keepsAcks_release {pid : Nat} :
    KeepsAcks (fun pending _ => ∀ p ∈ pending, p.msg.qos = 2)
      (act conn fun _ b => (b.release conn index pid, .ok (b.client conn).qos2Pending[pid]?)) b := by
  apply KeepsOk.access
  intro b' hlater hinv _ _
  have hnote : Harmless b' (b'.observe
      [.released conn index pid ((b'.client conn).qos2Pending[pid]?.map Pending.index)]) :=
    Harmless.observe harmless_rfl (by simp)
  refine ⟨⟨(hnote.inv hinv).1, ?_⟩, hnote.later, ?_⟩
  · intro other pid' pending h
    change ((b'.setClient conn fun cl => { cl with qos2Pending := cl.qos2Pending.erase pid }).client
      other).qos2Pending[pid']? = some pending at h
    rw [client_setClient] at h
    split at h
    · rw [ExtTreeMap.getElem?_erase] at h
      split at h
      · cases h
      · exact hinv.2 conn pid' pending h
    · exact hinv.2 other pid' pending h
  · rintro _ ⟨⟩ pending hpending
    exact hinv.2 conn pid pending hpending

theorem keepsAcks_onPubrel (hcfg : cfg.handler = true) :
    KeepsAcks (fun _ _ => True) (onPubrel cfg conn index payload) b := by
  unfold onPubrel
  split
  · exact .throw
  next pid _ _ =>
  refine .bind keepsAcks_release fun pending b₁ hpending => ?_
  cases pending with
  | none =>
    refine .bind (keepsAcks_of_steps (steps_act fun choice b => ?_) fun _ _ h => h) fun ok b₂ _ =>
      .ite (fun _ => .pure trivial) fun _ => .throw
    split
    · exact harmless_rfl
    · exact harmless_rfl.observe (by simp)
  | some pending =>
    have hqos : pending.msg.qos = 2 := hpending pending rfl
    refine .bind (keepsAcks_idle steps_requireWrite) fun _ b₂ _ => ?_
    refine .bind (keepsAcks_handle hcfg) fun _ b₃ ⟨_, hhandled⟩ => ?_
    refine .bind keepsAcks_publish fun _ b₄ h₄ => ?_
    have hacked : .handled conn pending.index pending.msg true ∈ b₄.history := h₄ _ (hhandled (by omega))
    refine .bind (keepsAcks_write hacked) fun ok b₅ _ => .ite (fun _ => .pure trivial) fun _ => .throw

theorem serves_acks (hcfg : cfg.handler = true) (conn : Nat) :
    Serves cfg conn ackContract (fun _ _ _ => True) (fun _ _ _ _ => True) where
  accept := fun _ => (keepsAcks_of_steps steps_accept fun _ _ => harmless_of_accept).mono fun _ _ _ => trivial
  read := by
    intro connected index packet b _
    refine (keepsAcks_of_steps (steps_update fun _ => ?_) fun _ _ h => h).mono fun _ _ _ => trivial
    exact Harmless.observe harmless_rfl (by simp)
  connect := fun _ _ _ _ _ =>
    (keepsAcks_of_steps steps_onConnect fun _ _ => harmless_of_connect).mono fun _ _ _ => trivial
  ping := fun _ _ _ _ _ _ => (keepsAcks_idle (steps_answer rfl)).mono fun _ _ _ => trivial
  publish := fun _ _ _ _ _ => keepsAcks_onPublish hcfg
  pubrec := fun _ _ _ _ _ => (keepsAcks_idle steps_onPubrec).mono fun _ _ _ => trivial
  pubrel := fun _ _ _ _ _ => keepsAcks_onPubrel hcfg
  pubcomp := fun _ _ _ _ _ => (keepsAcks_idle steps_onPubcomp).mono fun _ _ _ => trivial
  subscribe := fun _ _ _ _ =>
    (keepsAcks_of_steps steps_onSubscribe fun _ _ => harmless_of_subscribe).mono fun _ _ _ => trivial
  skip := fun _ _ _ _ _ => trivial
  close := fun _ _ => (keepsAcks_of_steps steps_close fun _ _ => harmless_of_close).mono fun _ _ _ => trivial

theorem keepsAcks_publishCall {msg : Message} : KeepsAcks (fun _ _ => True) (publishCall cfg conn msg) b := by
  refine .bind (keepsAcks_of_steps steps_reserve fun _ _ => harmless_of_accept) fun _ b₁ _ => ?_
  exact keepsAcks_publish.mono fun _ _ _ => trivial

end

section

def takingSystem (cfg : Config) : System Broker (Program Label Broker Choice (Except Exit Unit)) Choice :=
  brokerSystem cfg fun label choice _ => HandlerTakes label choice

variable {cfg : Config}

theorem ackContract_fits (hcfg : cfg.handler = true) : ackContract.Fits (takingSystem cfg) where
  next := rfl
  refl := fun _ => Later.refl
  trans := fun _ _ _ _ => Later.trans
  others := fun _ _ _ _ _ _ _ _ hguar _ _ _ _ => hguar
  starts := by
    rintro b t _ ⟨conn, ⟨stream, rfl⟩ | ⟨msg, rfl⟩⟩
    · exact Keeps.mono ((serves_acks hcfg conn).serve stream b) fun _ _ _ => trivial
    · exact Keeps.mono keepsAcks_publishCall fun _ _ _ => trivial
  enabled := fun _ _ label _ _ _ hallowed => (hallowed label rfl).1

/-- A PUBACK, or the PUBCOMP of a message that was held back, is written only for a message that
the handler took. -/
theorem acked_messages_accepted_of_run (hcfg : cfg.handler = true)
    {c : Interleave.Config Broker (Program Label Broker Choice (Except Exit Unit))}
    (hrun : (takingSystem cfg).Run ⟨{}, 0⟩ c) : Accepted c.shared := by
  have hempty : ackContract.inv {} := by
    refine ⟨nofun, fun conn pid pending h => ?_⟩
    simp at h
  exact ((ackContract_fits hcfg).outline.run hrun ⟨hempty, nofun⟩).1.1

def pressStreams : List (Nat × Bytes) :=
  [(0, connectOf "press" "op" true ++ packetOf 0x32 (appendString "line/1" ++ [0, 7] ++ ascii "up"))]

def pressMessage : Message where
  topic := "line/1"
  payload := ascii "up"
  qos := 1

def handlerOracle (fails : Bool) (label : Label) : Choice :=
  match label.point with
  | .handle _ => { fails }
  | _ => {}

def pressBroker (fails : Bool) : Broker := serveAll {} (handlerOracle fails) pressStreams {}

theorem acked_messages_accepted_press :
    .acked 0 1 pressMessage ∈ (pressBroker false).history ∧
      .handled 0 1 pressMessage true ∈ (pressBroker false).history := by
  have hrun : (takingSystem {}).Run ⟨{}, 0⟩ ⟨pressBroker false, 0⟩ := run_serveAll {} _ (by decide +kernel)
  have hacked : .acked 0 1 pressMessage ∈ (pressBroker false).history := by decide +kernel
  exact ⟨hacked, acked_messages_accepted_of_run rfl hrun 0 1 pressMessage hacked⟩

/-- The handler fails, and the publisher is told that the message was taken. -/
theorem acked_without_handler :
    ∃ c, (brokerSystem {} fun _ _ _ => True).Run ⟨{}, 0⟩ c ∧
      .handled 0 1 pressMessage false ∈ c.shared.history ∧
      .handled 0 1 pressMessage true ∉ c.shared.history ∧
      .acked 0 1 pressMessage ∈ c.shared.history ∧ .wrote 0 (.puback 7) ∈ c.shared.history :=
  ⟨⟨pressBroker true, 0⟩, run_serveAll {} _ (by decide +kernel), by decide +kernel⟩

end

end Nodra.Mqtt
