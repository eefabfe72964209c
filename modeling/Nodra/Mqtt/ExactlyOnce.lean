import Nodra.Mqtt.Handshake
import Nodra.Mqtt.Steps

/-! QoS 2 from a publisher to the handler.  A message is handled exactly once if the publisher
turns to another connection only when the handler has every message whose PUBREC it has. -/
namespace Nodra.Mqtt
open Lines Router Std Interleave Program List Option

variable {mine : Nat → Bool} {b b' : Broker} {conn index : Nat} {cfg : Config}

section

abbrev Broker.link (b : Broker) (conn : Nat) : Link := (network b.history).link conn

/-- The publisher of the connections `mine` keeps to the protocol, and the network to its packets. -/
def Compliant (mine : Nat → Bool) (label : Label) (b : Broker) : Prop :=
  match label.point with
  | .read packet => mine label.conn = true →
    (b.link label.conn).offered[(b.link label.conn).reads]?.map Offer.packet = some packet
  | .client (.moves conn) => mine conn = true ∧ conn ∉ (network b.history).used
  | .client (.offers conn packet) =>
    (network b.history).current = some conn ∧ (network b.history).mayOffer packet = true
  | .client (.receives conn) => (network b.history).current = some conn
  | _ => True

/-- It turns to another connection only when the handler has what is released. -/
def SettledMove (label : Label) (b : Broker) : Prop :=
  match label.point with
  | .client (.moves _) => ∀ flight ∈ (network b.history).flights.values, flight.released = true →
    flight.serial ∈ (network b.history).handled
  | _ => True

instance (mine : Nat → Bool) (label : Label) (b : Broker) : Decidable (Compliant mine label b) := by
  unfold Compliant
  exact match label.point with
    | .accept | .read _ | .write .. | .handle _ | .resume _ | .publish _ | .put _ | .delete _ | .leave | .step
    | .client (.moves _) | .client (.offers ..) | .client (.receives _) => inferInstance

instance (label : Label) (b : Broker) : Decidable (SettledMove label b) := by
  unfold SettledMove
  exact match label.point with
    | .accept | .read _ | .write .. | .handle _ | .resume _ | .publish _ | .put _ | .delete _ | .leave | .step
    | .client (.moves _) | .client (.offers ..) | .client (.receives _) => inferInstance

structure Link.Untouched (l : Link) : Prop where
  reads : l.reads = 0
  applied : l.applied = 0
  pending : ∀ pid, l.pending pid = none
  settled : l.taken = l.handled

structure InStep (mine : Nat → Bool) (b : Broker) : Prop where
  good : (network b.history).Good mine
  pending : ∀ conn pid : Nat, (b.client conn).qos2Pending[pid]?.map Pending.index = (b.link conn).pending pid
  unknown : ∀ conn ∉ b.known, (b.link conn).Untouched

structure Own (conn : Nat) (b b' : Broker) : Prop where
  reads : (b'.link conn).reads = (b.link conn).reads
  applied : (b'.link conn).applied = (b.link conn).applied
  pending : (b'.link conn).pending = (b.link conn).pending
  taken : (b'.link conn).taken = (b.link conn).taken
  handled : (b'.link conn).handled = (b.link conn).handled
  offered : (b.link conn).offered <+: (b'.link conn).offered
  used : conn ∈ (network b.history).used → conn ∈ (network b'.history).used
  known : conn ∈ b.known → conn ∈ b'.known

def onceContract (mine : Nat → Bool) : Contract Label Broker Choice where
  inv := InStep mine
  rely := fun label => Own label.conn
  guar := fun label _ b b' => ∀ other ≠ label.conn, Own other b b'
  enabled := fun label _ b => Compliant mine label b ∧ SettledMove label b

variable {b'' : Broker}

theorem Own.refl (conn : Nat) (b : Broker) : Own conn b b :=
  ⟨rfl, rfl, rfl, rfl, rfl, prefix_refl _, id, id⟩

theorem Own.trans (h : Own conn b b') (h' : Own conn b' b'') : Own conn b b'' where
  reads := h'.reads.trans h.reads
  applied := h'.applied.trans h.applied
  pending := h'.pending.trans h.pending
  taken := h'.taken.trans h.taken
  handled := h'.handled.trans h.handled
  offered := h.offered.trans h'.offered
  used := fun hmem => h'.used (h.used hmem)
  known := fun hmem => h'.known (h.known hmem)

theorem network_observe (b : Broker) (os : List Observation) :
    network (b.observe os).history = os.foldl Network.see (network b.history) := foldl_append

structure Unseen (b b' : Broker) : Prop where
  network : network b'.history = network b.history
  pending : ∀ conn, (b'.client conn).qos2Pending = (b.client conn).qos2Pending
  known : ∀ conn ∈ b.known, conn ∈ b'.known

theorem Unseen.own (h : Unseen b b') (conn : Nat) : Own conn b b' := by
  have hlink : b'.link conn = b.link conn := congrArg (fun net => net.link conn) h.network
  exact ⟨by rw [hlink], by rw [hlink], by rw [hlink], by rw [hlink], by rw [hlink], hlink ▸ prefix_refl _,
    fun hmem => h.network ▸ hmem, h.known conn⟩

theorem Unseen.inStep (h : Unseen b b') (hb : InStep mine b) : InStep mine b' where
  good := h.network ▸ hb.good
  pending := by
    intro conn pid
    rw [h.pending, hb.pending, Broker.link, Broker.link, h.network]
  unknown := by
    intro conn hconn
    rw [Broker.link, h.network]
    exact hb.unknown conn fun hmem => hconn (h.known conn hmem)

theorem Unseen.observe {os : List Observation} (h : Unseen b b') (hos : ∀ o ∈ os, ∀ net : Network, net.see o = net) :
    Unseen b (b'.observe os) where
  network := by
    rw [network_observe, h.network]
    generalize Mqtt.network b.history = net
    induction os with
    | nil => rfl
    | cons o os ih =>
      rw [foldl_cons, hos o mem_cons_self]
      exact ih fun o' ho' => hos o' (mem_cons_of_mem o ho')
  pending := h.pending
  known := h.known

theorem unseen_rfl : Unseen b b := ⟨rfl, fun _ => rfl, fun _ h => h⟩

theorem unseen_setClient {target : Nat} {f : Client → Client} (h : ∀ cl, (f cl).qos2Pending = cl.qos2Pending) :
    Unseen b (b.setClient target f) where
  network := rfl
  pending := by
    intro conn
    rw [client_setClient]
    split
    · next heq => rw [h, heq]
    · rfl
  known := fun _ h => h

theorem see_wrote {reply : Reply} (h : reply.isAck = false) (net : Network) : net.see (.wrote conn reply) = net := by
  cases reply with
  | pubrec pid => cases h
  | pubcomp pid => cases h
  | _ => rfl

theorem unseen_of_idle (h : IdleChange b b') : Unseen b b' := by
  cases h with
  | none => exact unseen_rfl
  | wrote conn reply h =>
    apply unseen_rfl.observe
    intro o ho net
    rw [mem_singleton.mp ho]
    exact see_wrote h net
  | outgoing target f h =>
    apply unseen_setClient
    intro cl
    rw [h cl]
  | count conn now =>
    apply unseen_setClient
    intro cl
    simp only [Client.count]
    split <;> rfl

theorem unseen_of_eq {os : List Observation} (hhistory : b'.history = b.history ++ os)
    (hclient : b'.client = b.client) (hknown : b'.known = b.known)
    (hos : ∀ o ∈ os, ∀ net : Network, net.see o = net := by simp [Network.see]) : Unseen b b' := by
  have h : Unseen b (b.observe os) := unseen_rfl.observe hos
  exact ⟨by rw [hhistory]; exact h.network, by simp [hclient], by simp [hknown]⟩

theorem unseen_of_publish {call : Call} {msg : Message} (h : PublishChange call msg b b') : Unseen b b' := by
  cases h with
  | send h =>
    cases h with
    | idle h => exact unseen_of_idle h
    | _ => exact unseen_of_eq rfl rfl rfl
  | _ => exact unseen_of_eq rfl rfl rfl

theorem unseen_of_connect (h : ConnectChange conn b b') : Unseen b b' := by
  cases h with
  | idle h => exact unseen_of_idle h
  | username username => exact unseen_setClient fun _ => rfl
  | discard clientID h =>
    cases h with
    | none => exact unseen_rfl
    | forget => exact unseen_of_eq rfl rfl rfl
    | close i => exact ⟨rfl, fun _ => rfl, fun _ h => h⟩
    | delete c h => rcases h with rfl | rfl <;> exact unseen_of_eq rfl rfl rfl
  | join clientID h =>
    cases h with
    | none => exact unseen_rfl
    | found i h => exact unseen_of_eq rfl rfl rfl
    | opened h => exact unseen_of_eq rfl rfl rfl
    | session i => exact unseen_setClient fun _ => rfl
    | attach i => exact ⟨rfl, fun _ => rfl, fun _ h => h⟩
    | restore i =>
      exact (unseen_setClient (f := fun cl => { cl with subs := (b.session i).subs }) fun _ => rfl).observe
        (by simp [Network.see])
  | replay i h =>
    cases h with
    | idle h => exact unseen_of_idle h
    | _ => exact unseen_of_eq rfl rfl rfl

theorem unseen_of_subscribe (h : SubscribeChange conn b b') : Unseen b b' := by
  cases h with
  | idle h => exact unseen_of_idle h
  | grant granted => exact unseen_setClient fun _ => rfl
  | setSubs i all => exact unseen_of_eq rfl rfl rfl

theorem unseen_of_close (h : CloseChange conn b b') : Unseen b b' := by
  cases h with
  | none => exact unseen_rfl
  | leave =>
    exact (unseen_setClient (f := fun cl => { cl with closed := true }) fun _ => rfl).observe
      (by simp [Network.see])
  | erase => exact ⟨rfl, fun _ => rfl, fun _ h => h⟩
  | detach i => exact unseen_of_eq rfl rfl rfl

end

section

variable {pid : Nat} {α : Type}

abbrev KeepsOnce (mine : Nat → Bool) (post : α → Broker → Prop) (p : Act α) (b : Broker) : Prop :=
  KeepsOk (onceContract mine) post p b

variable {p : Act α} {packet : Packet} {found : Option Nat}

theorem keepsOnce_of_steps {change : Broker → Broker → Prop} (hp : StepsOk (Makes conn change) p)
    (h : ∀ b b', change b b' → Unseen b b') : KeepsOnce mine (fun _ b' => Own conn b b') p b := by
  apply hp.keeps (Own.refl conn) (fun _ _ _ => Own.trans)
  · intro label run s s' hmakes hrely
    exact hmakes.1 ▸ hrely
  · intro label run choice s hmakes hinv _
    have hunseen := h _ _ (hmakes.2 choice s)
    exact ⟨hunseen.inStep hinv, fun other _ => hunseen.own other, hunseen.own conn⟩

structure AtTurn (conn index : Nat) (b : Broker) : Prop where
  known : conn ∈ b.known
  reads : (b.link conn).reads = index
  applied : (b.link conn).applied ≤ index
  settled : (b.link conn).taken = (b.link conn).handled

structure InTurn (mine : Nat → Bool) (conn index : Nat) (packet : Packet) (b : Broker) : Prop where
  known : conn ∈ b.known
  reads : (b.link conn).reads = index + 1
  applied : (b.link conn).applied ≤ index
  settled : (b.link conn).taken = (b.link conn).handled
  used : mine conn = true → conn ∈ (network b.history).used
  packet : mine conn = true → (b.link conn).offered[index]?.map Offer.packet = some packet

theorem AtTurn.own (h : AtTurn conn index b) (hown : Own conn b b') : AtTurn conn index b' where
  known := hown.known h.known
  reads := hown.reads.trans h.reads
  applied := hown.applied ▸ h.applied
  settled := by rw [hown.taken, hown.handled, h.settled]

theorem InTurn.own (h : InTurn mine conn index packet b) (hown : Own conn b b') :
    InTurn mine conn index packet b' where
  known := hown.known h.known
  reads := hown.reads.trans h.reads
  applied := hown.applied ▸ h.applied
  settled := by rw [hown.taken, hown.handled, h.settled]
  used := fun hmine => hown.used (h.used hmine)
  packet := by
    intro hmine
    obtain ⟨o, ho, hpacket⟩ := map_eq_some_iff.mp (h.packet hmine)
    obtain ⟨rest, hrest⟩ := hown.offered
    have hlt := (List.getElem?_eq_some_iff.mp ho).1
    rw [← hrest, getElem?_append_left hlt, ho]
    exact congrArg some hpacket

theorem InTurn.atTurn (h : InTurn mine conn index packet b) : AtTurn conn (index + 1) b :=
  ⟨h.known, h.reads, Nat.le_succ_of_le h.applied, h.settled⟩

theorem keepsOnce_atTurn {change : Broker → Broker → Prop} (hp : StepsOk (Makes conn change) p)
    (h : ∀ b b', change b b' → Unseen b b') (hb : AtTurn conn index b) :
    KeepsOnce mine (fun _ => AtTurn conn index) p b :=
  (keepsOnce_of_steps hp h).mono fun _ _ hown => hb.own hown

theorem keepsOnce_inTurn {change : Broker → Broker → Prop}
    (hp : StepsOk (Makes conn change) p) (h : ∀ b b', change b b' → Unseen b b')
    (hb : InTurn mine conn index packet b) : KeepsOnce mine (fun _ => InTurn mine conn index packet) p b :=
  (keepsOnce_of_steps hp h).mono fun _ _ hown => hb.own hown

theorem InStep.step (hb : InStep mine b) (b' : Broker) (hconn : conn ∈ b.known) {f : Link → Link}
    (hgood : (network b'.history).Good mine)
    (hlink : (network b'.history).link = Function.update (network b.history).link conn (f (b.link conn)))
    (hused : (network b'.history).used = (network b.history).used)
    (hclient : ∀ other ≠ conn, b'.client other = b.client other)
    (hpending : ∀ pid : Nat, (b'.client conn).qos2Pending[pid]?.map Pending.index = (f (b.link conn)).pending pid)
    (hknown : b'.known = b.known) : InStep mine b' ∧ ∀ other ≠ conn, Own other b b' := by
  have hself : b'.link conn = f (b.link conn) := (congrFun hlink conn).trans (Function.update_self ..)
  have hother (other : Nat) (hne : other ≠ conn) : b'.link other = b.link other :=
    (congrFun hlink other).trans (Function.update_of_ne hne ..)
  refine ⟨⟨hgood, ?_, ?_⟩, ?_⟩
  · intro other pid
    by_cases hne : other = conn
    · rw [hne, hself]
      exact hpending pid
    · rw [hother other hne, hclient other hne]
      exact hb.pending other pid
  · intro other hmem
    rw [hknown] at hmem
    rw [hother other fun heq => hmem (heq ▸ hconn)]
    exact hb.unknown other hmem
  · intro other hne
    have hsame := hother other hne
    exact ⟨by rw [hsame], by rw [hsame], by rw [hsame], by rw [hsame], by rw [hsame], hsame ▸ prefix_refl _,
      fun hmem => hused ▸ hmem, fun hmem => hknown ▸ hmem⟩

theorem InStep.accept (hb : InStep mine b) (h : AcceptChange conn b b') :
    InStep mine b' ∧ ∀ other, Own other b b' := by
  have hgrow {b' : Broker} (hhistory : b'.history = b.history) (hknown : b'.known = conn :: b.known)
      (hclient : ∀ other, b'.client other = b.client other ∨ conn ∉ b.known ∧ other = conn ∧ b'.client other = {}) :
      InStep mine b' ∧ ∀ other, Own other b b' := by
    have hlink (other : Nat) : b'.link other = b.link other := by rw [Broker.link, hhistory]
    refine ⟨⟨hhistory ▸ hb.good, fun other pid => ?_, fun other hmem => ?_⟩, fun other => ?_⟩
    · rw [hlink]
      rcases hclient other with hsame | ⟨hnew, rfl, hempty⟩
      · rw [hsame]
        exact hb.pending other pid
      · rw [hempty, (hb.unknown other hnew).pending pid]
        simp
    · rw [hlink]
      rw [hknown] at hmem
      exact hb.unknown other fun hold => hmem (mem_cons_of_mem conn hold)
    · have hsame := hlink other
      exact ⟨by rw [hsame], by rw [hsame], by rw [hsame], by rw [hsame], by rw [hsame], hsame ▸ prefix_refl _,
        fun hmem => hhistory ▸ hmem, fun hmem => hknown ▸ mem_cons_of_mem conn hmem⟩
  have hregister (hnew : conn ∉ b.known) (other : Nat) : (b.register conn).client other = b.client other ∨
      conn ∉ b.known ∧ other = conn ∧ (b.register conn).client other = {} := by
    rw [Broker.register, client_setClient]
    split
    · next heq => exact .inr ⟨hnew, heq, rfl⟩
    · exact .inl rfl
  cases h with
  | none => exact ⟨hb, fun other => .refl other b⟩
  | refuse hnew => exact hgrow rfl rfl (hregister hnew)
  | register hnew => exact hgrow rfl rfl (hregister hnew)
  | reserve hnew => exact hgrow rfl rfl fun _ => .inl rfl

theorem keepsOnce_accept : KeepsOnce mine (fun _ => AtTurn conn 0) (accept conn cfg) b := by
  apply KeepsOk.access
  intro b' hown hinv choice _
  dsimp only
  split
  · exact ⟨hinv, fun other _ => .refl other b', nofun⟩
  next hnew =>
  split
  · obtain ⟨hinv', hothers⟩ := hinv.accept (.refuse b' hnew)
    exact ⟨hinv', fun other _ => hothers other, nofun⟩
  · obtain ⟨hinv', hothers⟩ := hinv.accept (.register b' hnew)
    have hlink := hinv.unknown conn hnew
    refine ⟨hinv', fun other _ => hothers other, fun _ _ => ?_⟩
    exact ⟨mem_cons_self, hlink.reads, Nat.le_of_eq hlink.applied, hlink.settled⟩

theorem keepsOnce_read (hb : AtTurn conn index b) :
    KeepsOnce mine (fun _ => InTurn mine conn index packet)
      (update conn (fun b => b.observe [.read conn index packet]) (.read packet)) b := by
  apply KeepsOk.access
  intro b' hown hinv choice henabled
  have hready := hb.own hown
  have hpacket : mine conn = true → (b'.link conn).offered[(b'.link conn).reads]?.map Offer.packet = some packet :=
    henabled.1
  rw [hready.reads] at hpacket
  have hused : mine conn = true → conn ∈ (network b'.history).used := by
    intro hmine
    by_contra hmem
    have hsome := hpacket hmine
    rw [Broker.link, hinv.good.fresh conn hmem] at hsome
    simp at hsome
  have hnet : network (b'.observe [.read conn index packet]).history =
      (network b'.history).setLink conn fun l => { l with reads := l.reads + 1 } := network_observe ..
  have hlink : (b'.observe [.read conn index packet]).link conn =
      { b'.link conn with reads := (b'.link conn).reads + 1 } := by
    rw [Broker.link, hnet]
    exact (Network.link_setLink ..).trans (if_pos rfl)
  obtain ⟨hinv', hothers⟩ := hinv.step (b'.observe [.read conn index packet]) hready.known
    (f := fun l => { l with reads := l.reads + 1 }) (hnet ▸ hinv.good.read hused) (hnet ▸ rfl) (hnet ▸ rfl)
    (fun _ _ => rfl) (hinv.pending conn) rfl
  refine ⟨hinv', hothers, fun _ _ => ⟨hready.known, ?_, ?_, ?_, ?_, ?_⟩⟩
  · rw [hlink]
    exact congrArg (· + 1) hready.reads
  · rw [hlink]
    exact hready.applied
  · rw [hlink]
    exact hready.settled
  · rw [hnet]
    exact hused
  · rw [hlink]
    exact hpacket

theorem keepsOnce_answer {reply : Reply} (hb : AtTurn conn index b)
    (hsee : ∀ net : Network, net.see (.wrote conn reply) = net.setLink conn (·.answer reply))
    {meaning : List Observation} (hmeaning : ∀ o ∈ meaning, ∀ net : Network, net.see o = net)
    (hgood : ∀ b', Own conn b b' → InStep mine b' →
      ((network b'.history).setLink conn (·.answer reply)).Good mine) :
    KeepsOnce mine (fun _ => AtTurn conn index) (answer conn reply meaning) b := by
  refine .bind (KeepsOk.access ?_) fun ok b₁ h₁ => .ite (fun _ => .pure h₁) fun _ => .throw
  intro b' hown hinv choice _
  have hready := hb.own hown
  split
  · exact ⟨hinv, fun other _ => .refl other b', fun _ _ => hready⟩
  have hnet : network (b'.observe [.wrote conn reply]).history = (network b'.history).setLink conn (·.answer reply) :=
    (network_observe ..).trans (hsee _)
  have hlink : (b'.observe [.wrote conn reply]).link conn = (b'.link conn).answer reply := by
    rw [Broker.link, hnet]
    exact (Network.link_setLink ..).trans (if_pos rfl)
  obtain ⟨hinv₁, hothers⟩ := hinv.step (b'.observe [.wrote conn reply]) hready.known
    (f := (·.answer reply)) (hnet ▸ hgood b' hown hinv) (hnet ▸ rfl) (hnet ▸ rfl)
    (fun _ _ => rfl) (hinv.pending conn) rfl
  have hready₁ : AtTurn conn index (b'.observe [.wrote conn reply]) :=
    ⟨hready.known, hlink ▸ hready.reads, hlink ▸ hready.applied, hlink ▸ hready.settled⟩
  have hunseen : Unseen (b'.observe [.wrote conn reply]) (b'.observe (.wrote conn reply :: meaning)) := by
    have heq : b'.observe (.wrote conn reply :: meaning) = (b'.observe [.wrote conn reply]).observe meaning := by
      simp [Broker.observe]
    rw [heq]
    exact unseen_rfl.observe hmeaning
  refine ⟨hunseen.inStep hinv₁, fun other hne => (hothers other hne).trans (hunseen.own other), fun _ _ => ?_⟩
  exact hready₁.own (hunseen.own conn)

theorem InStep.hold {msg : Message} (hb : InStep mine b) (hturn : InTurn mine conn index packet b)
    (hshake : packet.shake = some (.publish pid msg)) :
    InStep mine (b.hold conn pid { msg, index }) ∧ (∀ other ≠ conn, Own other b (b.hold conn pid { msg, index })) ∧
      AtTurn conn (index + 1) (b.hold conn pid { msg, index }) ∧
      ((b.hold conn pid { msg, index }).link conn).pending pid = some index ∧
      (mine conn = true → conn ∈ (network (b.hold conn pid { msg, index }).history).used) := by
  have hnet : network (b.hold conn pid { msg, index }).history =
      (network b.history).setLink conn (·.apply index pid (some index)) := network_observe ..
  have hlink : (b.hold conn pid { msg, index }).link conn = (b.link conn).apply index pid (some index) := by
    rw [Broker.link, hnet]
    exact (Network.link_setLink ..).trans (if_pos rfl)
  have hoffer (hmine : mine conn = true) : ∃ o, (b.link conn).offered[index]? = some o ∧ o.IsPublish pid := by
    obtain ⟨o, ho, hpacket⟩ := map_eq_some_iff.mp (hturn.packet hmine)
    exact ⟨o, ho, msg, hpacket ▸ hshake⟩
  have hpending (pid' : Nat) : ((b.hold conn pid { msg, index }).client conn).qos2Pending[pid']?.map Pending.index =
      ((b.link conn).apply index pid (some index)).pending pid' := by
    have hclient : ((b.hold conn pid { msg, index }).client conn).qos2Pending =
        (b.client conn).qos2Pending.insert pid { msg, index } := by
      simp [Broker.hold, Broker.observe, Broker.setClient]
    rw [hclient, ExtTreeMap.getElem?_insert]
    by_cases hpid : pid' = pid
    · rw [hpid, Link.apply_pending_self]
      simp
    · rw [Link.apply_pending_of_ne hpid, ← hb.pending conn pid']
      simp [Ne.symm hpid]
  obtain ⟨hinv, hothers⟩ := hb.step (b.hold conn pid { msg, index }) hturn.known
    (f := (·.apply index pid (some index))) (hnet ▸ hb.good.hold hturn.applied hoffer hturn.used) (hnet ▸ rfl)
    (hnet ▸ rfl) (fun other hne => Function.update_of_ne hne ..) hpending rfl
  refine ⟨hinv, hothers, ⟨hturn.known, hlink ▸ hturn.reads, hlink ▸ Nat.le.refl, hlink ▸ hturn.settled⟩, ?_, ?_⟩
  · rw [hlink]
    exact Link.apply_pending_self
  · rw [hnet]
    exact hturn.used

/-- A PUBREL has let go of the message `serial`, or of none, with the PUBLISH of the number `found`. -/
structure Owing (mine : Nat → Bool) (conn index pid : Nat) (found serial : Option Nat) (b : Broker) : Prop where
  known : conn ∈ b.known
  reads : (b.link conn).reads = index + 1
  applied : (b.link conn).applied ≤ index + 1
  used : mine conn = true → conn ∈ (network b.history).used
  pending : (b.link conn).pending pid = none
  taken : (b.link conn).taken = (b.link conn).handled ++ serial.toList
  sound : mine conn = true → ∀ published ∈ found, ∃ n, serial = some n ∧ (b.link conn).serial published = some n
  other : ¬mine conn = true → serial = none

theorem Owing.own {serial : Option Nat} (h : Owing mine conn index pid found serial b) (hown : Own conn b b') :
    Owing mine conn index pid found serial b' where
  known := hown.known h.known
  reads := hown.reads.trans h.reads
  applied := hown.applied ▸ h.applied
  used := fun hmine => hown.used (h.used hmine)
  pending := hown.pending ▸ h.pending
  taken := by rw [hown.taken, hown.handled, h.taken]
  sound := by
    intro hmine published hmem
    obtain ⟨n, hserial, hpublished⟩ := h.sound hmine published hmem
    obtain ⟨o, ho, htag⟩ := bind_eq_some_iff.mp hpublished
    obtain ⟨rest, hrest⟩ := hown.offered
    have hlt := (List.getElem?_eq_some_iff.mp ho).1
    refine ⟨n, hserial, bind_eq_some_iff.mpr ⟨o, ?_, htag⟩⟩
    rw [← hrest, getElem?_append_left hlt, ho]
  other := h.other

theorem Owing.atTurn (h : Owing mine conn index pid found none b) :
    AtTurn conn (index + 1) b :=
  ⟨h.known, h.reads, h.applied, h.taken.trans (append_nil _)⟩

theorem InStep.release (hb : InStep mine b) (hturn : InTurn mine conn index packet b)
    (hshake : packet.shake = some (.pubrel pid)) :
    InStep mine (b.release conn index pid) ∧ (∀ other ≠ conn, Own other b (b.release conn index pid)) ∧
      Owing mine conn index pid ((b.link conn).pending pid) (((b.link conn).pending pid).bind (b.link conn).serial)
        (b.release conn index pid) := by
  have hoffer (hmine : mine conn = true) : ∃ o, (b.link conn).offered[index]? = some o ∧ o.IsPubrel pid := by
    obtain ⟨o, ho, hpacket⟩ := map_eq_some_iff.mp (hturn.packet hmine)
    exact ⟨o, ho, (congrArg Packet.shake hpacket).trans hshake⟩
  have hnet : network (b.release conn index pid).history =
      ((network b.history).setLink conn (·.apply index pid none)).take conn
        (((b.link conn).pending pid).bind (b.link conn).serial) := by
    rw [← hb.pending conn pid]
    exact network_observe ..
  have hgood : (network (b.release conn index pid).history).Good mine := by
    rw [hnet]
    exact hb.good.release hturn.applied hoffer hturn.used
  have hsound (hmine : mine conn = true) (published : Nat) (hpublished : (b.link conn).pending pid = some published) :
      ∃ n, (b.link conn).serial published = some n := by
    obtain ⟨o, ho, hpubrel⟩ := hoffer hmine
    have hne : (b.link conn).pending pid ≠ none := by simp [hpublished]
    obtain ⟨_, flight, _, _, hreleasing⟩ := hb.good.releasing (hturn.used hmine) hturn.applied ho hpubrel hne
    exact ⟨flight.serial, hreleasing.pending published hpublished⟩
  have hother (hmine : ¬mine conn = true) : ((b.link conn).pending pid).bind (b.link conn).serial = none :=
    bind_eq_none_iff.mpr fun published _ => hb.good.serial_of_not_mine hmine published
  have hbind (published : Nat) (hmem : (b.link conn).pending pid = some published) :
      ((b.link conn).pending pid).bind (b.link conn).serial = (b.link conn).serial published := by
    rw [hmem, bind_some]
  generalize ((b.link conn).pending pid).bind (b.link conn).serial = serial at hnet hother hbind
  have hlink : (network (b.release conn index pid).history).link = Function.update (network b.history).link conn
      { (b.link conn).apply index pid none with taken := (b.link conn).taken ++ serial.toList } := by
    rw [hnet]
    cases serial with
    | none => simp [Network.take, Network.setLink, Link.apply]
    | some n => simp [Network.take, Network.setLink, Link.apply]
  have hself : (b.release conn index pid).link conn =
      { (b.link conn).apply index pid none with taken := (b.link conn).taken ++ serial.toList } :=
    (congrFun hlink conn).trans (Function.update_self ..)
  have hused : (network (b.release conn index pid).history).used = (network b.history).used := by
    rw [hnet]
    cases serial <;> rfl
  have hpending (pid' : Nat) : ((b.release conn index pid).client conn).qos2Pending[pid']?.map Pending.index =
      ((b.link conn).apply index pid none).pending pid' := by
    have hclient : ((b.release conn index pid).client conn).qos2Pending = (b.client conn).qos2Pending.erase pid := by
      simp [Broker.release, Broker.observe, Broker.setClient]
    rw [hclient, ExtTreeMap.getElem?_erase]
    by_cases hpid : pid' = pid
    · rw [hpid, Link.apply_pending_self]
      simp
    · rw [Link.apply_pending_of_ne hpid, ← hb.pending conn pid']
      simp [Ne.symm hpid]
  obtain ⟨hinv, hothers⟩ := hb.step (b.release conn index pid) hturn.known
    (f := fun l => { l.apply index pid none with taken := l.taken ++ serial.toList }) hgood hlink hused
    (fun other hne => Function.update_of_ne hne ..) hpending rfl
  refine ⟨hinv, hothers, ⟨hturn.known, ?_, ?_, ?_, ?_, ?_, ?_, hother⟩⟩
  · rw [hself]
    exact hturn.reads
  · rw [hself]
    exact Nat.le.refl
  · rw [hused]
    exact hturn.used
  · rw [hself]
    change ((b.link conn).apply index pid none).pending pid = none
    exact Link.apply_pending_self
  · rw [hself]
    exact congrArg (· ++ serial.toList) hturn.settled
  · rw [hself]
    intro hmine published hmem
    obtain ⟨n, hn⟩ := hsound hmine published hmem
    exact ⟨n, (hbind published hmem).trans hn, hn⟩

theorem InStep.handled {published : Nat} {serial : Option Nat} {msg : Message} {ok : Bool} (hb : InStep mine b)
    (howing : Owing mine conn index pid (some published) serial b) :
    InStep mine (b.observe [.handled conn published msg ok]) ∧
      (∀ other ≠ conn, Own other b (b.observe [.handled conn published msg ok])) ∧
      Owing mine conn index pid none none (b.observe [.handled conn published msg ok]) := by
  have hnet : network (b.observe [.handled conn published msg ok]).history =
      (network b.history).handle conn ((b.link conn).serial published) := network_observe ..
  by_cases hmine : mine conn = true
  · obtain ⟨n, rfl, hserial⟩ := howing.sound hmine published rfl
    rw [hserial] at hnet
    have hself : (b.observe [.handled conn published msg ok]).link conn =
        { b.link conn with handled := (b.link conn).handled ++ [n] } := by
      rw [Broker.link, hnet]
      exact Function.update_self ..
    obtain ⟨hinv, hothers⟩ := hb.step (b.observe [.handled conn published msg ok]) howing.known
      (f := fun l => { l with handled := l.handled ++ [n] }) (hnet ▸ hb.good.handles howing.taken) (hnet ▸ rfl)
      (hnet ▸ rfl) (fun _ _ => rfl) (hb.pending conn) rfl
    refine ⟨hinv, hothers, ⟨howing.known, hself ▸ howing.reads, hself ▸ howing.applied, ?_, hself ▸ howing.pending,
      ?_, nofun, fun _ => rfl⟩⟩
    · rw [hnet]
      exact howing.used
    · rw [hself]
      exact howing.taken.trans (append_nil _).symm
  · obtain rfl := howing.other hmine
    have hunseen : Unseen b (b.observe [.handled conn published msg ok]) := by
      refine ⟨?_, fun _ => rfl, fun _ h => h⟩
      rw [hnet, hb.good.serial_of_not_mine hmine published]
      rfl
    have howing' := howing.own (hunseen.own conn)
    exact ⟨hunseen.inStep hb, fun other _ => hunseen.own other, { howing' with sound := nofun }⟩

theorem keepsOnce_onPublish (htyp : packet.typ = 3) (hb : InTurn mine conn index packet b) :
    KeepsOnce mine (fun _ => AtTurn conn (index + 1)) (onPublish cfg conn index packet.flags packet.payload) b := by
  unfold onPublish
  split
  · exact .throw
  next msg pid hparse =>
  refine .bind (keepsOnce_inTurn steps_requireCap (fun _ _ => unseen_of_idle) hb) fun _ b₁ h₁ => ?_
  refine .bind (keepsOnce_inTurn steps_requireWrite (fun _ _ => unseen_of_idle) h₁) fun _ b₂ h₂ => ?_
  refine .ite (fun hqos => ?_) fun hqos => ?_
  · have hshake : packet.shake = some (.publish pid msg) := by simp [Packet.shake, htyp, hparse, hqos]
    have hhold : KeepsOnce mine
        (fun _ b' => AtTurn conn (index + 1) b' ∧ (b'.link conn).pending pid = some index ∧
          (mine conn = true → conn ∈ (network b'.history).used))
        (update conn fun b => b.hold conn pid { msg, index }) b₂ := by
      apply KeepsOk.access
      intro b' hown hinv _ _
      obtain ⟨hinv', hothers, hheld⟩ := hinv.hold (h₂.own hown) hshake
      exact ⟨hinv', hothers, fun _ _ => hheld⟩
    refine .bind hhold fun _ b₃ ⟨h₃, hpending, hused⟩ => ?_
    refine keepsOnce_answer h₃ (fun _ => rfl) (by simp) fun b' hown hinv => ?_
    refine hinv.good.answer_pubrec (fun _ => ?_) fun hmine => hown.used (hused hmine)
    change (b'.link conn).pending pid ≠ none
    rw [hown.pending, hpending]
    exact some_ne_none index
  · have hshake : packet.shake = none := by simp [Packet.shake, htyp, hparse, hqos]
    have hhandle : KeepsOnce mine (fun _ => InTurn mine conn index packet) (handle cfg conn index msg) b₂ := by
      refine .ite (fun _ => KeepsOk.access ?_) fun _ => .pure h₂
      intro b' hown hinv choice _
      have hturn := h₂.own hown
      have hserial : (b'.link conn).serial index = none := by
        by_cases hmine : mine conn = true
        · obtain ⟨o, ho, hpacket⟩ := map_eq_some_iff.mp (hturn.packet hmine)
          have htag := hinv.good.tagged conn o (mem_of_getElem? ho) (hpacket ▸ hshake)
          rw [Link.serial, ho]
          exact htag
        · exact hinv.good.serial_of_not_mine hmine index
      have hunseen : Unseen b' (b'.observe [.handled conn index msg !choice.fails]) := by
        refine ⟨?_, fun _ => rfl, fun _ h => h⟩
        refine (network_observe ..).trans ?_
        change (network b'.history).handle conn ((b'.link conn).serial index) = _
        rw [hserial]
        rfl
      exact ⟨hunseen.inStep hinv, fun other _ => hunseen.own other, fun _ _ => hturn.own (hunseen.own conn)⟩
    refine .bind hhandle fun _ b₃ h₃ => ?_
    refine .bind (keepsOnce_inTurn steps_publish (fun _ _ => unseen_of_publish) h₃) fun _ b₄ h₄ => ?_
    refine .ite (fun _ => KeepsOk.discard (keepsOnce_atTurn (steps_act fun choice b => ?_) (fun _ _ h => h) h₄.atTurn))
      fun _ => .pure h₄.atTurn
    split
    · exact unseen_rfl
    · exact unseen_of_eq rfl rfl rfl

theorem keepsOnce_onPubrel (hcfg : cfg.handler = true) (htyp : packet.typ = 6)
    (hb : InTurn mine conn index packet b) :
    KeepsOnce mine (fun _ => AtTurn conn (index + 1)) (onPubrel cfg conn index packet.payload) b := by
  unfold onPubrel
  split
  · exact .throw
  next pid rest hread =>
  have hshake : packet.shake = some (.pubrel pid) := by simp [Packet.shake, htyp, hread]
  have hrelease : KeepsOnce mine
      (fun pending b' => ∃ serial, Owing mine conn index pid (pending.map Pending.index) serial b' ∧
        (pending = none → serial = none))
      (act conn fun _ b => (b.release conn index pid, .ok (b.client conn).qos2Pending[pid]?)) b := by
    apply KeepsOk.access
    intro b' hown hinv _ _
    obtain ⟨hinv', hothers, howing⟩ := hinv.release (hb.own hown) hshake
    refine ⟨hinv', hothers, ?_⟩
    rintro _ ⟨⟩
    rw [← hinv.pending conn pid] at howing
    refine ⟨_, howing, fun hnone => ?_⟩
    rw [hnone]
    rfl
  have hpubcomp {found : Option Nat} {meaning : List Observation} (hmeaning : ∀ o ∈ meaning, ∀ net : Network, net.see o = net)
      {b : Broker} (howing : Owing mine conn index pid found none b) :
      KeepsOnce mine (fun _ => AtTurn conn (index + 1)) (answer conn (.pubcomp pid) meaning) b := by
    refine keepsOnce_answer howing.atTurn (fun _ => rfl) hmeaning fun b' hown hinv => ?_
    have howing' := howing.own hown
    refine hinv.good.answer_pubcomp (fun _ => howing'.pending) (fun _ n hn => ?_) howing'.used
    exact hinv.good.report conn n (howing'.atTurn.settled ▸ hn)
  refine .bind hrelease fun pending b₁ ⟨serial, h₁, hnone⟩ => ?_
  cases pending with
  | none =>
    obtain rfl := hnone rfl
    exact hpubcomp (by simp) h₁
  | some pending =>
    have hkeep {change : Broker → Broker → Prop} {α : Type} {p : Act α} {found serial : Option Nat} {b : Broker}
        (hp : StepsOk (Makes conn change) p) (h : ∀ b b', change b b' → Unseen b b')
        (howing : Owing mine conn index pid found serial b) :
        KeepsOnce mine (fun _ => Owing mine conn index pid found serial) p b :=
      (keepsOnce_of_steps hp h).mono fun _ _ hown => howing.own hown
    have hhandle {b : Broker} (howing : Owing mine conn index pid (some pending.index) serial b) :
        KeepsOnce mine (fun _ => Owing mine conn index pid none none) (handle cfg conn pending.index pending.msg) b := by
      refine .ite (fun _ => KeepsOk.access ?_) fun hno => absurd hcfg hno
      intro b' hown hinv choice _
      obtain ⟨hinv', hothers, howing'⟩ := hinv.handled (howing.own hown)
      exact ⟨hinv', hothers, fun _ _ => howing'⟩
    refine .bind (hkeep steps_requireWrite (fun _ _ => unseen_of_idle) h₁) fun _ b₂ h₂ => ?_
    refine .bind (hhandle h₂) fun _ b₃ h₃ => ?_
    refine .bind (hkeep steps_publish (fun _ _ => unseen_of_publish) h₃) fun _ b₄ h₄ => ?_
    exact hpubcomp (by simp [Network.see]) h₄

theorem serves_once (mine : Nat → Bool) (hcfg : cfg.handler = true) (conn : Nat) :
    Serves cfg conn (onceContract mine) (fun _ => AtTurn conn) (fun _ => InTurn mine conn) where
  accept := fun _ => keepsOnce_accept
  read := fun _ _ _ _ => keepsOnce_read
  connect := fun _ _ _ hb _ => keepsOnce_atTurn steps_onConnect (fun _ _ => unseen_of_connect) hb.atTurn
  ping := fun _ _ _ _ hb _ => keepsOnce_atTurn (steps_answer rfl) (fun _ _ => unseen_of_idle) hb.atTurn
  publish := fun _ _ _ hb htyp => keepsOnce_onPublish htyp hb
  pubrec := fun _ _ _ hb _ => keepsOnce_atTurn steps_onPubrec (fun _ _ => unseen_of_idle) hb.atTurn
  pubrel := fun _ _ _ hb htyp => keepsOnce_onPubrel hcfg htyp hb
  pubcomp := fun _ _ _ hb _ => keepsOnce_atTurn steps_onPubcomp (fun _ _ => unseen_of_idle) hb.atTurn
  subscribe := fun _ _ _ hb => keepsOnce_atTurn steps_onSubscribe (fun _ _ => unseen_of_subscribe) hb.atTurn
  skip := fun _ _ _ _ hb => hb.atTurn
  close := fun _ _ => (keepsOnce_of_steps steps_close fun _ _ => unseen_of_close).mono fun _ _ _ => trivial

theorem keepsOnce_publishCall {msg : Message} : KeepsOnce mine (fun _ _ => True) (publishCall cfg conn msg) b := by
  have hreserve : KeepsOnce mine (fun _ _ => True) (reserve conn) b := by
    apply KeepsOk.access
    intro b' _ hinv _ _
    split
    · exact ⟨hinv, fun other _ => .refl other b', fun _ _ => trivial⟩
    · next hnew =>
      obtain ⟨hinv', hothers⟩ := hinv.accept (.reserve b' hnew)
      exact ⟨hinv', fun other _ => hothers other, fun _ _ => trivial⟩
  refine .bind hreserve fun _ b₁ _ => ?_
  exact (keepsOnce_of_steps steps_publish fun _ _ => unseen_of_publish).mono fun _ _ _ => trivial

end

def clientStep (number : Nat) (event : ClientEvent) : Act Unit :=
  update number (fun b => b.observe [.client event]) (.client event)

theorem Network.link_offer (net : Network) (conn : Nat) (packet : Packet) :
    ∃ o, (net.offer conn packet).link = Function.update net.link conn ((net.link conn).push o) := by
  unfold Network.offer
  split
  · exact ⟨_, rfl⟩
  · exact ⟨_, rfl⟩
  · split <;> exact ⟨_, rfl⟩

theorem Network.link_receive (net : Network) (conn : Nat) :
    ∃ rest, (net.receive conn).link = Function.update net.link conn ((net.link conn).receive rest) := by
  have hanswered (net : Network) (reply : Reply) : (net.answered reply).link = net.link := by
    unfold Network.answered
    split
    · split <;> rfl
    · split
      · rfl
      · split <;> rfl
    · rfl
  unfold Network.receive
  split
  · next hanswers =>
    refine ⟨(net.link conn).answers, ?_⟩
    exact (Function.update_eq_self conn net.link).symm
  · next reply rest hanswers =>
    rw [hanswered]
    exact ⟨rest, rfl⟩

theorem used_see (net : Network) (event : ClientEvent) : ∀ conn ∈ net.used, conn ∈ (net.see (.client event)).used := by
  have hoffer (conn : Nat) (packet : Packet) : (net.offer conn packet).used = net.used := by
    unfold Network.offer
    split
    · rfl
    · rfl
    · split <;> rfl
  have hanswered (net : Network) (reply : Reply) : (net.answered reply).used = net.used := by
    unfold Network.answered
    split
    · split <;> rfl
    · split
      · rfl
      · split <;> rfl
    · rfl
  have hreceive (conn : Nat) : (net.receive conn).used = net.used := by
    unfold Network.receive
    split
    · rfl
    · exact hanswered ..
  intro conn hconn
  cases event with
  | moves other => exact mem_cons_of_mem other hconn
  | offers other packet => exact (hoffer other packet).symm ▸ hconn
  | receives other => exact (hreceive other).symm ▸ hconn

theorem own_client (b : Broker) (event : ClientEvent) (conn : Nat) : Own conn b (b.observe [.client event]) := by
  have hnet : network (b.observe [.client event]).history = (network b.history).see (.client event) :=
    network_observe ..
  have hsame (f : Link → Link) (other : Nat)
      (hlink : (network (b.observe [.client event]).history).link =
        Function.update (network b.history).link other (f (b.link other)))
      (hf : ∀ l, (f l).reads = l.reads ∧ (f l).applied = l.applied ∧ (f l).pending = l.pending ∧
        (f l).taken = l.taken ∧ (f l).handled = l.handled ∧ l.offered <+: (f l).offered) :
      Own conn b (b.observe [.client event]) := by
    have hused : conn ∈ (network b.history).used → conn ∈ (network (b.observe [.client event]).history).used :=
      fun hmem => hnet ▸ used_see _ event conn hmem
    have hconn : (b.observe [.client event]).link conn = f (b.link conn) ∨
        (b.observe [.client event]).link conn = b.link conn := by
      rw [Broker.link, hlink, Function.update_apply]
      split
      · next heq => exact .inl (by rw [heq])
      · exact .inr rfl
    obtain ⟨hreads, happlied, hpending, htaken, hhandled, hoffered⟩ := hf (b.link conn)
    rcases hconn with heq | heq
    · exact ⟨heq ▸ hreads, heq ▸ happlied, heq ▸ hpending, heq ▸ htaken, heq ▸ hhandled, heq ▸ hoffered, hused, id⟩
    · exact ⟨heq ▸ rfl, heq ▸ rfl, heq ▸ rfl, heq ▸ rfl, heq ▸ rfl, heq ▸ prefix_refl _, hused, id⟩
  cases event with
  | moves other =>
    refine hsame id other ?_ fun _ => ⟨rfl, rfl, rfl, rfl, rfl, prefix_refl _⟩
    rw [hnet]
    exact (Function.update_eq_self other _).symm
  | offers other packet =>
    obtain ⟨o, ho⟩ := Network.link_offer (network b.history) other packet
    exact hsame (·.push o) other (hnet ▸ ho) fun _ => ⟨rfl, rfl, rfl, rfl, rfl, prefix_append ..⟩
  | receives other =>
    obtain ⟨rest, hrest⟩ := Network.link_receive (network b.history) other
    exact hsame (·.receive rest) other (hnet ▸ hrest) fun _ => ⟨rfl, rfl, rfl, rfl, rfl, prefix_refl _⟩

theorem keepsOnce_clientStep {number : Nat} {event : ClientEvent} :
    KeepsOnce mine (fun _ _ => True) (clientStep number event) b := by
  apply KeepsOk.access
  intro b' _ hinv choice henabled
  have hown := own_client b' event
  have hnet : network (b'.observe [.client event]).history = (network b'.history).see (.client event) :=
    network_observe ..
  have hgood : (network (b'.observe [.client event]).history).Good mine := by
    rw [hnet]
    obtain ⟨hcompliant, hsettled⟩ := henabled
    cases event with
    | moves conn => exact hinv.good.moves hcompliant.1 hcompliant.2 hsettled
    | offers conn packet => exact hinv.good.offers hcompliant.1 hcompliant.2
    | receives conn => exact hinv.good.receives hcompliant
  refine ⟨⟨hgood, fun conn pid => ?_, fun conn hconn => ?_⟩, fun other _ => hown other, fun _ _ => trivial⟩
  · rw [(hown conn).pending]
    exact hinv.pending conn pid
  · have huntouched := hinv.unknown conn hconn
    refine ⟨(hown conn).reads.trans huntouched.reads, (hown conn).applied.trans huntouched.applied, ?_, ?_⟩
    · rw [(hown conn).pending]
      exact huntouched.pending
    · rw [(hown conn).taken, (hown conn).handled]
      exact huntouched.settled

/-- The broker, and a publisher that keeps to the protocol on the connections `mine`; it is beside
other clients, who may send anything. -/
def publisherSystem (cfg : Config) (enabled : Label → Broker → Prop) :
    System Broker (Program Label Broker Choice (Except Exit Unit)) Choice where
  starts := fun t => (brokerSystem cfg fun label _ => enabled label).starts t ∨
    ∃ number event, t = (clientStep number event).run
  next := Program.next
  allowed := (brokerSystem cfg fun label _ => enabled label).allowed

/-- Every message whose PUBCOMP the publisher has was handled exactly once. -/
def HandledOnce (b : Broker) : Prop :=
  ∀ n ∈ (network b.history).completed, (network b.history).handled.count n = 1

theorem onceContract_fits (hcfg : cfg.handler = true) :
    (onceContract mine).Fits (publisherSystem cfg fun label b => Compliant mine label b ∧ SettledMove label b) where
  next := rfl
  refl := fun label => Own.refl label.conn
  trans := fun _ _ _ _ => Own.trans
  others := by
    intro choice b label run next rest hallowed _ hguar u hu label' hlabel'
    exact hguar label'.conn ((hallowed label rfl).2 u hu label' hlabel')
  starts := by
    rintro b t _ (⟨conn, ⟨stream, rfl⟩ | ⟨msg, rfl⟩⟩ | ⟨number, event, rfl⟩)
    · exact Keeps.mono ((serves_once mine hcfg conn).serve stream b) fun _ _ _ => trivial
    · exact Keeps.mono keepsOnce_publishCall fun _ _ _ => trivial
    · exact Keeps.mono keepsOnce_clientStep fun _ _ _ => trivial
  enabled := fun _ _ label _ _ _ hallowed => (hallowed label rfl).1

theorem inStep_empty : InStep mine {} where
  good := Network.good_empty
  pending := fun _ _ => by simp [Broker.link, network]
  unknown := fun _ _ => ⟨rfl, rfl, fun _ => rfl, rfl⟩

/-- A publisher that turns to another connection only when its released messages are handled has
each message handled exactly once, whatever is lost on the way. -/
theorem handled_once_of_run (hcfg : cfg.handler = true)
    {c : Interleave.Config Broker (Program Label Broker Choice (Except Exit Unit))}
    (hrun : (publisherSystem cfg fun label b => Compliant mine label b ∧ SettledMove label b).Run ⟨{}, 0⟩ c) :
    HandledOnce c.shared := by
  have hgood := ((onceContract_fits hcfg).outline.run hrun ⟨inStep_empty, nofun⟩).1.good
  intro n hn
  exact count_eq_one_of_mem hgood.nodup (hgood.completed n hn)

inductive PublisherJob where
  | broker (job : Job)
  | client (event : ClientEvent)

def PublisherJob.thread (cfg : Config) : PublisherJob → Program Label Broker Choice (Except Exit Unit)
  | .broker job => job.thread cfg
  | .client event => (clientStep 9 event).run

theorem PublisherJob.starts {enabled : Label → Broker → Prop} (job : PublisherJob) :
    (publisherSystem cfg enabled).starts (job.thread cfg) := by
  cases job with
  | broker job => exact .inl (job.starts cfg)
  | client event => exact .inr ⟨9, event, rfl⟩

theorem run_publisherScript {enabled : Label → Broker → Prop} (script : List (Scene PublisherJob Choice))
    (h : Follows (fun label _ b => enabled label b) (fun label label' => label.conn ≠ label'.conn) ({}, [])
      (script.flatMap (Scene.moves (PublisherJob.thread cfg)))) :
    (publisherSystem cfg enabled).Run ⟨{}, 0⟩
      ⟨(play (PublisherJob.thread cfg) script {}).1, (play (PublisherJob.thread cfg) script {}).2⟩ :=
  run_of_play _ rfl (fun _ _ _ _ h => h) PublisherJob.starts script {} h

def clientScene (event : ClientEvent) : List (Scene PublisherJob Choice) := [.start (.client event), .turn 0 2 {}]

def connectPacket : Bytes := connectOf "sensor" "op" false

def publishPacket : Bytes := packetOf 0x34 (appendString "line/1" ++ [0, 7] ++ ascii "up")

def pubrelPacket : Bytes := packetOf 0x62 [0, 7]

def offersScene (conn : Nat) (stream : Bytes) : List (Scene PublisherJob Choice) :=
  (readPackets stream).flatMap fun packet => clientScene (.offers conn packet)

def steadyScript : List (Scene PublisherJob Choice) :=
  clientScene (.moves 0) ++ offersScene 0 (connectPacket ++ publishPacket) ++
    [.start (.broker (.connection 0 (connectPacket ++ publishPacket ++ pubrelPacket))), .turn 0 15 {}] ++
    clientScene (.receives 0) ++ offersScene 0 pubrelPacket ++ [.turn 0 40 {}] ++ clientScene (.receives 0)

theorem handled_once_steady :
    (network (play (PublisherJob.thread {}) steadyScript {}).1.history).completed = [0] ∧
      HandledOnce (play (PublisherJob.thread {}) steadyScript {}).1 := by
  let mine : Nat → Bool := fun conn => conn = 0
  have hrun : (publisherSystem {} fun label b => Compliant mine label b ∧ SettledMove label b).Run ⟨{}, 0⟩ _ :=
    run_publisherScript steadyScript (by decide +kernel)
  exact ⟨by decide +kernel, handled_once_of_run rfl hrun⟩

def droppedScript : List (Scene PublisherJob Choice) :=
  clientScene (.moves 0) ++ offersScene 0 (connectPacket ++ publishPacket) ++
    [.start (.broker (.connection 0 (connectPacket ++ publishPacket))), .turn 0 40 {}] ++
    clientScene (.receives 0) ++
    clientScene (.moves 1) ++ offersScene 1 (connectPacket ++ pubrelPacket) ++
    [.start (.broker (.connection 1 (connectPacket ++ pubrelPacket))), .turn 0 40 {}] ++
    clientScene (.receives 1)

/-- The publisher has the PUBCOMP of a message that the handler never had. -/
theorem completed_unhandled :
    ∃ c, (publisherSystem {} (Compliant fun conn => conn < 2)).Run ⟨{}, 0⟩ c ∧
      (network c.shared.history).completed = [0] ∧ (network c.shared.history).handled = [] ∧
      .wrote 1 (.pubcomp 7) ∈ c.shared.history ∧ ¬HandledOnce c.shared := by
  have hrun : (publisherSystem {} (Compliant fun conn => conn < 2)).Run ⟨{}, 0⟩ _ :=
    run_publisherScript droppedScript (by decide +kernel)
  have hcompleted : (network (play (PublisherJob.thread {}) droppedScript {}).1.history).completed = [0] := by
    decide +kernel
  have hhandled : (network (play (PublisherJob.thread {}) droppedScript {}).1.history).handled = [] := by
    decide +kernel
  refine ⟨_, hrun, hcompleted, hhandled, by decide +kernel, fun honce => ?_⟩
  have hcount := honce 0 (by simp [hcompleted])
  rw [hhandled] at hcount
  cases hcount

end Nodra.Mqtt
