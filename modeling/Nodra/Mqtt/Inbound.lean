import Nodra.Mqtt.PacketIDs
import Nodra.Mqtt.Publisher

/-! What a connection makes of the messages of QoS 2 that come in on it, packet by packet. -/
namespace Nodra.Mqtt
open Lines Std Interleave Program List

variable {conn : Nat} {b b' b'' : Broker} {enabled : Label → Choice → Broker → Prop} {cfg : Config}
  {msg : Message}

inductive Reaction where
  | handled (msg : Message)
  | pubrec (pid : Nat)
  | pubcomp (pid : Nat)
deriving DecidableEq

def Shake.pid : Shake → Nat
  | .publish pid _ => pid
  | .pubrel pid => pid

def latest (pid : Nat) (before : List Shake) : Option Message :=
  match (before.filter fun shake => shake.pid = pid).getLast? with
  | some (.publish _ msg) => some msg
  | _ => none

/-- A PUBLISH is answered by a PUBREC; a PUBREL passes its message to the handler, if there is
one, and is answered by a PUBCOMP. -/
def reaction (before : List Shake) : Shake → List Reaction
  | .publish pid _ => [.pubrec pid]
  | .pubrel pid => (latest pid before).toList.map .handled ++ [.pubcomp pid]

def reactions (before : List Shake) : List Shake → List Reaction
  | [] => []
  | shake :: rest => reaction before shake ++ reactions (before ++ [shake]) rest

def Observation.reaction (conn : Nat) : Observation → Option Reaction
  | .handled c _ msg _ => if c = conn then some (.handled msg) else none
  | .wrote c (.pubrec pid) => if c = conn then some (.pubrec pid) else none
  | .wrote c (.pubcomp pid) => if c = conn then some (.pubcomp pid) else none
  | _ => none

theorem latest_snoc (pid : Nat) (before : List Shake) (shake : Shake) :
    latest pid (before ++ [shake]) =
      if shake.pid = pid then
        match shake with
        | .publish _ msg => some msg
        | .pubrel _ => none
      else latest pid before := by
  unfold latest
  by_cases h : shake.pid = pid
  · cases shake <;> simp_all [filter_append]
  · simp [filter_append, h]

structure Spared (conn : Nat) (b b' : Broker) : Prop where
  client : (b.client conn).SameButBooks (b'.client conn)
  clients : b'.clients = b.clients
  history : ∃ os, b'.history = b.history ++ os ∧ os.filterMap (Observation.reaction conn) = []

theorem Spared.refl (conn : Nat) (b : Broker) : Spared conn b b where
  client := rfl
  clients := rfl
  history := ⟨[], by simp, rfl⟩

theorem Client.SameButBooks.trans {cl cl' cl'' : Client} (h : cl.SameButBooks cl') (h' : cl'.SameButBooks cl'') :
    cl.SameButBooks cl'' := by
  unfold Client.SameButBooks at *
  rw [h', h]

theorem Spared.trans (h : Spared conn b b') (h' : Spared conn b' b'') : Spared conn b b'' where
  client := h.client.trans h'.client
  clients := h'.clients.trans h.clients
  history := by
    obtain ⟨os, hos, hnone⟩ := h.history
    obtain ⟨os', hos', hnone'⟩ := h'.history
    refine ⟨os ++ os', ?_, ?_⟩
    · rw [hos', hos, append_assoc]
    · rw [filterMap_append, hnone, hnone']
      rfl

theorem Spared.observe {os : List Observation} (h : Spared conn b b')
    (hos : os.filterMap (Observation.reaction conn) = []) : Spared conn b (b'.observe os) :=
  h.trans { client := rfl, clients := rfl, history := ⟨os, rfl, hos⟩ }

theorem spared_setClient {target : Nat} {f : Client → Client} (h : ∀ cl : Client, cl.SameButBooks (f cl)) :
    Spared conn b (b.setClient target f) where
  client := by
    rw [client_setClient]
    split
    · next heq =>
      subst heq
      exact h _
    · rfl
  clients := rfl
  history := ⟨[], by simp, rfl⟩

theorem spared_of_idle (h : IdleChange b b') : Spared conn b b' := by
  cases h with
  | none => exact .refl conn b
  | wrote target reply h =>
    refine (Spared.refl conn b).observe ?_
    cases reply <;> simp_all [Observation.reaction, Reply.isAck]
  | outgoing target f h => exact spared_setClient fun cl => (h cl).books
  | count target now => exact spared_setClient fun cl => cl.sameButBooks_count now

theorem spared_of_publish {call : Call} (h : PublishChange call msg b b') : Spared conn b b' := by
  cases h with
  | send h =>
    cases h with
    | idle h => exact spared_of_idle h
    | _ => exact (Spared.refl conn b).observe (by simp [Observation.reaction])
  | reserve i =>
    have hsession : Spared conn b (b.setSession i fun s => { s with seq := s.seq + 1 }) :=
      ⟨rfl, rfl, [], by simp, rfl⟩
    exact hsession.observe (by simp [Observation.reaction])
  | put i entry hclosed hcall =>
    have hqueue : Spared conn b (b.changeQueue i fun items => items.put entry.msg.id entry) :=
      ⟨rfl, rfl, [], by simp, rfl⟩
    exact hqueue.observe (by simp [Observation.reaction])

section

def Client.HasID (cl : Client) : Prop := ∃ id, 0 < id ∧ id < 2 ^ 16 ∧ cl.qos2Out.contains id = false

variable {target : Nat} {call : Call}

def OthersSame (target : Nat) (b b' : Broker) : Prop := ∀ other ≠ target, b'.client other = b.client other

theorem othersSame_setClient (b : Broker) (target : Nat) (f : Client → Client) :
    OthersSame target b (b.setClient target f) := by
  intro other hother
  rw [client_setClient, if_neg hother]

variable {α : Type} {f : Choice → Broker → Broker × Except Exit α} {point : Point}

theorem finishes_act
    {post : α → Broker → Prop} (h : ∀ choice, ∃ value, (f choice b).2 = .ok value ∧ post value (f choice b).1) :
    Finishes enabled post (act conn f point) b :=
  .access fun choice _ => h choice

theorem finishes_anyhow (h : ∀ choice, ∃ value, (f choice b).2 = .ok value) :
    Finishes enabled (fun _ _ => True) (act conn f point) b :=
  finishes_act fun choice => (h choice).imp fun _ heq => ⟨heq, trivial⟩

theorem finishes_sendPublish {topic : String} {payload : Bytes} {qos : Nat} {dup : Bool}
    {meaning : Nat → List Observation} (hid : (b.client target).HasID) :
    Finishes enabled (fun _ => OthersSame target b) (sendPublish conn target topic payload qos dup meaning) b := by
  have hset : ∀ b' : Broker, OthersSame target b b' → ∀ f, OthersSame target b (b'.setClient target f) := by
    intro b' h f other hother
    rw [othersSame_setClient b' target f other hother, h other hother]
  have hnext : Finishes enabled (fun _ => OthersSame target b)
      (if qos > 0 then nextOutPacketID conn target else pure 0) b := by
    split
    · refine finishes_act fun _ => ?_
      obtain ⟨found, hfound⟩ : ∃ found, freeID (fun id => (b.client target).qos2Out.contains id) (2 ^ 16)
          (b.client target).nextOutID = some found := exists_freeID_iff.mpr hid
      dsimp only
      rw [hfound]
      exact ⟨found, rfl, othersSame_setClient b target fun cl => { cl with nextOutID := found }⟩
    · exact .pure fun _ _ => rfl
  have hupdate : ∀ (c : Prop) [Decidable c] (f : Client → Client) (b' : Broker), OthersSame target b b' →
      Finishes enabled (fun _ => OthersSame target b)
        (if c then update conn fun b => b.setClient target f else pure ()) b' := by
    intro c _ f b' h
    split
    · exact finishes_update (hset b' h f)
    · exact .pure h
  unfold sendPublish
  refine .bind hnext fun pid b₁ h₁ => ?_
  refine .bind (hupdate _ _ b₁ h₁) fun _ b₂ h₂ => ?_
  have hwrite : Finishes enabled (fun _ => OthersSame target b)
      (write conn target (.publish topic payload qos dup pid) (meaning pid)) b₂ := by
    refine finishes_act fun choice => ?_
    split
    · exact ⟨false, rfl, h₂⟩
    · exact ⟨true, rfl, h₂⟩
  refine .bind hwrite fun ok b₃ h₃ => ?_
  exact .bind (hupdate _ _ b₃ h₃) fun _ _ h₄ => .pure h₄

theorem finishes_publishLive (hid : (b.client target).HasID) :
    Finishes enabled (fun _ => OthersSame target b) (publishLive call msg target) b := by
  have hfound : Finishes enabled (fun _ b' => b'.client = b.client)
      (act call.conn fun _ b =>
        let found := matching msg.topic (b.client target).subs
        (b.observe (found.toList.map (.matched call target)), .ok found)) b :=
    finishes_act fun _ => ⟨_, rfl, rfl⟩
  refine .bind hfound fun found b₁ h₁ => ?_
  cases found with
  | none =>
    refine .pure fun other _ => ?_
    rw [h₁]
  | some sub =>
    rw [← h₁] at hid
    refine (finishes_sendPublish hid).discard.mono fun _ b' h other hother => ?_
    rw [h other hother, h₁]

theorem finishes_publishQueued {i : Nat} : Finishes enabled (fun _ _ => True) (publishQueued call msg i) b := by
  have hlook : Finishes enabled (fun _ _ => True) (look call.conn fun b => (b.session i).live.isSome) b :=
    finishes_look trivial
  refine .bind hlook fun live b₁ _ => ?_
  split
  · exact .pure trivial
  · refine .bind (finishes_anyhow fun _ => ⟨_, rfl⟩) fun found b₂ _ => ?_
    cases found with
    | none => exact .pure trivial
    | some sub =>
      refine .bind (finishes_anyhow fun _ => ⟨_, rfl⟩) fun id b₃ _ => ?_
      exact finishes_anyhow fun _ => ⟨_, rfl⟩

theorem finishes_publish (hclients : b.clients.Nodup) (hids : ∀ target ∈ b.clients, (b.client target).HasID) :
    Finishes enabled (fun _ _ => True) (publish cfg call msg) b := by
  let keep : List Nat → Broker → Prop := fun rest b' => rest.Nodup ∧ ∀ target ∈ rest, (b'.client target).HasID
  have hwalk : Finishes enabled keep (walk call.conn Broker.clients (.publish msg) [.publishing call msg]) b := by
    refine finishes_act fun choice => ⟨_, rfl, ?_⟩
    obtain ⟨order, hperm⟩ := choice.shuffle b.clients
    exact ⟨hperm.nodup_iff.mpr hclients, fun target h => hids target (hperm.mem_iff.mp h)⟩
  have hturn : ∀ target rest b', keep (target :: rest) b' →
      Finishes enabled (fun _ => keep rest) (publishLive call msg target) b' := by
    rintro target rest b' ⟨hnodup, hids⟩
    obtain ⟨hnot, hnodup⟩ := nodup_cons.mp hnodup
    refine (finishes_publishLive (hids target mem_cons_self)).mono fun _ b'' h => ⟨hnodup, fun other hother => ?_⟩
    rw [h other fun heq => hnot (heq ▸ hother)]
    exact hids other (mem_cons_of_mem target hother)
  refine .bind hwalk fun order b₁ h₁ => ?_
  refine .bind (.forM_rest hturn h₁) fun _ b₂ _ => ?_
  have hqueued : ∀ (is : List Nat) (b' : Broker),
      Finishes enabled (fun _ _ => True) (is.forM (publishQueued call msg)) b' :=
    fun is b' => .forM_rest (fun _ _ _ _ => finishes_publishQueued) trivial
  have hsessions : Finishes enabled (fun _ _ => True)
      (if cfg.sessionDir then do
        (← walk call.conn fun b => b.sessions.values).forM (publishQueued call msg)
      else pure ()) b₂ := by
    split
    · exact .bind (finishes_anyhow fun _ => ⟨_, rfl⟩) fun is b₃ _ => hqueued is b₃
    · exact .pure trivial
  refine .bind hsessions fun _ b₃ _ => ?_
  exact finishes_update trivial

end

section

def Reacts (conn : Nat) (b b' : Broker) (rs : List Reaction) : Prop :=
  ∃ os, b'.history = b.history ++ os ∧ os.filterMap (Observation.reaction conn) = rs

def Roomy (b : Broker) : Prop := ∀ target ∈ b.clients, (b.client target).HasID

/-- A connection between two packets of its publisher, which sends as `name`. -/
structure Midway (cfg : Config) (conn : Nat) (name : String) (before : List Shake) (b : Broker) : Prop where
  isOpen : (b.client conn).closed = false
  sender : (b.client conn).username.getD "" = name
  pending : ∀ pid, (b.client conn).qos2Pending[pid]?.map Pending.msg = latest pid before
  clients : b.clients.Nodup
  permitted : ∀ pid msg, .publish pid msg ∈ before → permit cfg name msg.topic true = true

/-- No write of the connection to itself fails, and the clock does not make it publish too often. -/
def Smooth (cfg : Config) (conn : Nat) (label : Label) (choice : Choice) (b : Broker) : Prop :=
  Writable conn label choice ∧ (label = ⟨conn, .step⟩ → cfg.maxPublishPerMinute = 0 ∨
    ((b.client conn).count choice.now).pubCount ≤ cfg.maxPublishPerMinute)

variable {name : String} {before : List Shake} {pid index : Nat}

theorem Spared.reacts (h : Spared conn b b') : Reacts conn b b' [] := h.history

theorem Reacts.trans {rs rs' : List Reaction} (h : Reacts conn b b' rs) (h' : Reacts conn b' b'' rs') :
    Reacts conn b b'' (rs ++ rs') := by
  obtain ⟨os, hos, hrs⟩ := h
  obtain ⟨os', hos', hrs'⟩ := h'
  refine ⟨os ++ os', ?_, ?_⟩
  · rw [hos', hos, append_assoc]
  · rw [filterMap_append, hrs, hrs']

theorem Midway.spared (h : Midway cfg conn name before b) (hspared : Spared conn b b') :
    Midway cfg conn name before b' := by
  have hclient := hspared.client
  unfold Client.SameButBooks at hclient
  constructor
  · rw [hclient]
    exact h.isOpen
  · rw [hclient]
    exact h.sender
  · rw [hclient]
    exact h.pending
  · rw [hspared.clients]
    exact h.clients
  · exact h.permitted

theorem Midway.observe (h : Midway cfg conn name before b) (os : List Observation) :
    Midway cfg conn name before (b.observe os) := ⟨h.isOpen, h.sender, h.pending, h.clients, h.permitted⟩

theorem mem_of_latest (h : latest pid before = some msg) : .publish pid msg ∈ before := by
  unfold latest at h
  split at h
  · next other _ hlast =>
    cases h
    have hmem := mem_of_getLast? hlast
    simp only [mem_filter, decide_eq_true_eq] at hmem
    obtain ⟨hmem, rfl⟩ := hmem
    exact hmem
  · cases h

theorem Midway.hold (h : Midway cfg conn name before b) (hpermit : permit cfg name msg.topic true = true) :
    Midway cfg conn name (before ++ [.publish pid msg]) (b.hold conn pid { msg, index }) where
  isOpen := by simpa [Broker.hold, Broker.setClient] using h.isOpen
  sender := by simpa [Broker.hold, Broker.setClient] using h.sender
  pending := by
    intro other
    have hbefore := h.pending other
    simp only [Broker.hold, observe_client, client_setClient, if_true, latest_snoc, Shake.pid]
    rw [ExtTreeMap.getElem?_insert]
    by_cases hother : pid = other
    · simp [hother]
    · simp [hother, hbefore]
  clients := h.clients
  permitted := by
    intro other msg' hmem
    rcases mem_append.mp hmem with hmem | hmem
    · exact h.permitted other msg' hmem
    · cases mem_singleton.mp hmem
      exact hpermit

theorem Midway.release (h : Midway cfg conn name before b) :
    Midway cfg conn name (before ++ [.pubrel pid]) (b.release conn index pid) where
  isOpen := by simpa [Broker.release, Broker.setClient] using h.isOpen
  sender := by simpa [Broker.release, Broker.setClient] using h.sender
  pending := by
    intro other
    have hbefore := h.pending other
    simp only [Broker.release, observe_client, client_setClient, if_true, latest_snoc, Shake.pid]
    rw [ExtTreeMap.getElem?_erase]
    by_cases hother : pid = other
    · simp [hother]
    · simp [hother, hbefore]
  clients := h.clients
  permitted := by
    intro other msg' hmem
    rcases mem_append.mp hmem with hmem | hmem
    · exact h.permitted other msg' hmem
    · cases mem_singleton.mp hmem

theorem finishes_requireCap (hsmooth : ∀ label choice b, enabled label choice b → Smooth cfg conn label choice b) :
    Finishes enabled (fun _ b' => Spared conn b b') (requireCap cfg conn) b := by
  have hcap : Finishes enabled (fun ok b' => ok = true ∧ Spared conn b b') (underPublishCap cfg conn) b := by
    refine .access fun choice henabled => ?_
    have hcount := (hsmooth _ _ _ henabled).2 rfl
    split
    · exact ⟨true, rfl, rfl, .refl conn b⟩
    · next hmax =>
      have hle := hcount.resolve_left hmax
      refine ⟨_, rfl, ?_, spared_setClient fun cl => cl.sameButBooks_count choice.now⟩
      simpa using hle
  refine .bind hcap fun ok b' hok => ?_
  rw [hok.1]
  exact .pure hok.2

theorem finishes_requireWrite {topic : String} (hname : (b.client conn).username.getD "" = name)
    (hpermit : permit cfg name topic true = true) :
    Finishes enabled (fun _ b' => b = b') (requireWrite cfg conn topic) b := by
  have huser : Finishes enabled (fun user b' => user = name ∧ b = b') (username conn) b := finishes_look ⟨hname, rfl⟩
  refine .bind huser ?_
  rintro _ _ ⟨rfl, rfl⟩
  rw [hpermit]
  exact .pure rfl

theorem finishes_onPublish (index : Nat) (hsmooth : ∀ label choice b, enabled label choice b → Smooth cfg conn label choice b)
    {flags : Nat} {payload : Bytes} (hparse : parsePublish flags payload = some (msg, pid)) (hqos : msg.qos = 2)
    (hpermit : permit cfg name msg.topic true = true) (hb : Midway cfg conn name before b) :
    Finishes enabled (fun _ b' => Midway cfg conn name (before ++ [.publish pid msg]) b' ∧
        Reacts conn b b' (reaction before (.publish pid msg)))
      (onPublish cfg conn index flags payload) b := by
  unfold onPublish
  rw [hparse]
  refine .bind (finishes_requireCap hsmooth) fun _ b₁ h₁ => ?_
  have hb₁ := hb.spared h₁
  refine .bind (finishes_requireWrite hb₁.sender hpermit) ?_
  rintro _ _ rfl
  rw [if_pos hqos]
  have hhold : Finishes enabled (fun _ b' => Midway cfg conn name (before ++ [.publish pid msg]) b' ∧ Reacts conn b b' [])
      (update conn fun b => b.hold conn pid { msg, index }) b₁ := by
    refine finishes_update ⟨hb₁.hold hpermit, h₁.reacts.trans ?_⟩
    exact ⟨[.held conn index pid], rfl, rfl⟩
  refine .bind hhold fun _ b₂ h₂ => ?_
  refine finishes_answer (fun label choice b h => (hsmooth label choice b h).1) h₂.1.isOpen ⟨h₂.1.observe _, ?_⟩
  refine h₂.2.trans ⟨_, rfl, ?_⟩
  simp [Observation.reaction]

theorem finishes_handle (hcfg : cfg.handler = true) :
    Finishes enabled (fun _ b' => ∃ ok, b' = b.observe [.handled conn index msg ok]) (handle cfg conn index msg) b := by
  unfold handle
  rw [if_pos hcfg]
  exact finishes_act fun choice => ⟨(), rfl, _, rfl⟩

theorem finishes_publish_spared (conn : Nat) {call : Call} (hclients : b.clients.Nodup) (hroomy : Roomy b) :
    Finishes enabled (fun _ b' => Spared conn b b') (publish cfg call msg) b := by
  have hfinishes : Finishes enabled (fun _ _ => True) (publish cfg call msg) b := finishes_publish hclients hroomy
  refine (hfinishes.along steps_publish (Spared.refl conn) (fun _ _ _ => Spared.trans) ?_).mono fun _ _ h => h.2
  exact fun _ _ choice b hmakes => spared_of_publish (hmakes.2 choice b)

theorem finishes_onPubrel (index : Nat) (hcfg : cfg.handler = true)
    (hsmooth : ∀ label choice b, enabled label choice b → Smooth cfg conn label choice b) {payload rest : Bytes}
    (hid : readID payload = some (pid, rest)) (hb : Midway cfg conn name before b) (hroomy : Roomy b) :
    Finishes enabled (fun _ b' => Midway cfg conn name (before ++ [.pubrel pid]) b' ∧
        Reacts conn b b' (reaction before (.pubrel pid)))
      (onPubrel cfg conn index payload) b := by
  unfold onPubrel
  rw [hid]
  have hrelease : Finishes enabled
      (fun pending b' => pending = (b.client conn).qos2Pending[pid]? ∧ b' = b.release conn index pid)
      (act conn fun _ b => (b.release conn index pid, .ok (b.client conn).qos2Pending[pid]?)) b :=
    finishes_act fun _ => ⟨_, rfl, rfl, rfl⟩
  have hreleased : Reacts conn b (b.release conn index pid) [] := ⟨_, rfl, rfl⟩
  have hwritable : ∀ label choice b, enabled label choice b → Writable conn label choice :=
    fun label choice b h => (hsmooth label choice b h).1
  have hmidway : Midway cfg conn name (before ++ [.pubrel pid]) (b.release conn index pid) := hb.release
  have hlatest := hb.pending pid
  refine .bind hrelease ?_
  rintro _ b₁ ⟨rfl, rfl⟩
  cases hpending : (b.client conn).qos2Pending[pid]? with
  | none =>
    rw [hpending] at hlatest
    refine finishes_answer hwritable hmidway.isOpen ⟨hmidway.observe _, hreleased.trans ⟨_, rfl, ?_⟩⟩
    simp [Observation.reaction, ← hlatest]
  | some pending =>
    obtain ⟨msg, published⟩ := pending
    rw [hpending] at hlatest
    have hpermit := hb.permitted pid msg (mem_of_latest hlatest.symm)
    refine .bind (finishes_requireWrite hmidway.sender hpermit) ?_
    rintro _ _ rfl
    refine .bind (finishes_handle hcfg) ?_
    rintro _ _ ⟨ok, rfl⟩
    have hroomy' : Roomy ((b.release conn index pid).observe [.handled conn published msg ok]) := by
      intro target htarget
      have hids := hroomy target htarget
      simp only [Broker.release, observe_client, client_setClient]
      split
      · next heq =>
        subst heq
        exact hids
      · exact hids
    refine .bind (finishes_publish_spared conn hmidway.clients hroomy') fun _ b₂ h₂ => ?_
    have hb₂ := (hmidway.observe _).spared h₂
    refine finishes_answer hwritable hb₂.isOpen ⟨hb₂.observe _, ?_⟩
    have hhandled : Reacts conn b _ [.handled msg] := hreleased.trans
      (⟨_, rfl, by simp [Observation.reaction]⟩ : Reacts conn _ (Broker.observe _ [.handled conn published msg ok]) _)
    have hcompleted : Reacts conn b₂ (b₂.observe [.wrote conn (.pubcomp pid), .acked conn published msg]) [.pubcomp pid] :=
      ⟨_, rfl, by simp [Observation.reaction]⟩
    have hall := (hhandled.trans h₂.reacts).trans hcompleted
    simpa [reaction, ← hlatest] using hall

theorem finishes_onPacket (hcfg : cfg.handler = true)
    (hsmooth : ∀ label choice b, enabled label choice b → Smooth cfg conn label choice b) {packet : Packet}
    {shake : Shake} (hshake : packet.shake = some shake)
    (hpermit : ∀ pid msg, shake = .publish pid msg → permit cfg name msg.topic true = true)
    (hb : Midway cfg conn name before b) (hroomy : Roomy b) :
    Finishes enabled (fun connected b' => connected = true ∧ Midway cfg conn name (before ++ [shake]) b' ∧
        Reacts conn b b' (reaction before shake))
      (onPacket cfg conn true index packet) b := by
  unfold Packet.shake at hshake
  split at hshake
  · next htyp =>
    split at hshake
    · next msg pid hparse =>
      split at hshake
      · next hqos =>
        cases hshake
        have hturn := finishes_onPublish index hsmooth hparse hqos (hpermit pid msg rfl) hb
        simp only [onPacket, onClientPacket, htyp]
        exact .bind hturn fun _ b' h => .pure ⟨rfl, h⟩
      · cases hshake
    · cases hshake
  · split at hshake
    · next htyp =>
      obtain ⟨⟨pid, rest⟩, hid, rfl⟩ := Option.map_eq_some_iff.mp hshake
      have hturn := finishes_onPubrel index hcfg hsmooth hid hb hroomy
      simp only [onPacket, onClientPacket, htyp]
      exact .bind hturn fun _ b' h => .pure ⟨rfl, h⟩
    · cases hshake

/-- A packet is only read where every client has an id for another message. -/
def RoomyRead (conn : Nat) (label : Label) (b : Broker) : Prop :=
  ∀ packet, label = ⟨conn, .read packet⟩ → Roomy b

/-- Whatever sequence of PUBLISH packets of QoS 2 and PUBREL packets comes in on a connection, and
whatever is chosen at the steps that are `enabled`, the connection takes them all: the handler gets
the messages it should, and each packet has its answer. -/
def HandshakesExact (cfg : Config) (conn : Nat) (enabled : Label → Choice → Broker → Prop) : Prop :=
  ∀ (b : Broker) (index : Nat) (packets : List Packet) (shakes : List Shake),
    packets.map Packet.shake = shakes.map some → (b.client conn).closed = false → (b.client conn).qos2Pending = ∅ →
    b.clients.Nodup →
    (∀ pid msg, .publish pid msg ∈ shakes → permit cfg ((b.client conn).username.getD "") msg.topic true = true) →
    (serveLoop cfg conn true index packets).run.Keeps (.sole enabled)
      (fun result b' => result = .error .returned ∧ Reacts conn b b' (reactions [] shakes)) b

theorem keeps_serveLoop (hcfg : cfg.handler = true)
    (hsmooth : ∀ label choice b, enabled label choice b → Smooth cfg conn label choice b)
    (hread : ∀ label choice b, enabled label choice b → RoomyRead conn label b) {packets : List Packet}
    {shakes : List Shake} (hshakes : packets.map Packet.shake = shakes.map some)
    (hpermit : ∀ pid msg, .publish pid msg ∈ shakes → permit cfg name msg.topic true = true)
    (hb : Midway cfg conn name before b) :
    (serveLoop cfg conn true index packets).run.Keeps (.sole enabled)
      (fun result b' => result = .error .returned ∧ Reacts conn b b' (reactions before shakes)) b := by
  induction packets generalizing shakes before b index with
  | nil =>
    obtain rfl : shakes = [] := map_eq_nil_iff.mp hshakes.symm
    exact ⟨rfl, (Spared.refl conn b).reacts⟩
  | cons packet packets ih =>
    cases shakes with
    | nil => cases hshakes
    | cons shake shakes =>
      obtain ⟨hshake, hrest⟩ := List.cons.inj hshakes
      have htake : Finishes enabled (fun _ b' => Midway cfg conn name before b' ∧ Roomy b' ∧ Reacts conn b b' [])
          (update conn (fun b => b.observe [.read conn index packet]) (.read packet)) b := by
        refine .access fun choice henabled => ?_
        have hroomy : Roomy b := hread _ _ _ henabled packet rfl
        exact ⟨(), rfl, hb.observe _, hroomy, ⟨_, rfl, rfl⟩⟩
      refine htake.bind_keeps fun _ b₁ h₁ => ?_
      refine (finishes_onPacket hcfg hsmooth hshake ?_ h₁.1 h₁.2.1).bind_keeps ?_
      · rintro pid msg rfl
        exact hpermit pid msg mem_cons_self
      · rintro _ b₂ ⟨rfl, hb₂, hreacts⟩
        refine (ih hrest (fun pid msg hmem => hpermit pid msg (mem_cons_of_mem _ hmem)) hb₂).mono ?_
        rintro result b₃ ⟨hresult, hreacts'⟩
        exact ⟨hresult, (h₁.2.2.trans hreacts).trans hreacts'⟩

/-- The handshakes on a connection are exact as long as every client has an id for another message
whenever a packet is read. -/
theorem handshakesExact_of_roomy (cfg : Config) (hcfg : cfg.handler = true) (conn : Nat) :
    HandshakesExact cfg conn fun label choice b => Smooth cfg conn label choice b ∧ RoomyRead conn label b := by
  intro b index packets shakes hshakes hopen hpending hclients hpermit
  refine keeps_serveLoop hcfg (fun _ _ _ h => h.1) (fun _ _ _ h => h.2) hshakes hpermit ?_
  refine ⟨hopen, rfl, fun pid => ?_, hclients, nofun⟩
  rw [hpending]
  rfl

end

def hello : Message := { topic := "a", payload := [120], qos := 2 }

def helloPublish : Packet := { typ := 3, flags := 4, payload := [0, 1, 97, 0, 7, 120] }

def helloPubrel : Packet := { typ := 6, flags := 2, payload := [0, 7] }

theorem hello_shakes : [helloPublish, helloPubrel].map Packet.shake = [.publish 7 hello, .pubrel 7].map some := by decide

structure Exhausted (b : Broker) : Prop where
  clients : b.clients = [0]
  isOpen : (b.client 0).closed = false
  subs : (b.client 0).subs = [⟨"a", 2⟩]
  ids : freeID (fun id => (b.client 0).qos2Out.contains id) (2 ^ 16) (b.client 0).nextOutID = none

theorem Exhausted.observe (h : Exhausted b) (os : List Observation) : Exhausted (b.observe os) :=
  ⟨h.clients, h.isOpen, h.subs, h.ids⟩

theorem Exhausted.setClient (h : Exhausted b) (pending : ExtTreeMap Nat Pending → ExtTreeMap Nat Pending) :
    Exhausted (b.setClient 0 fun cl => { cl with qos2Pending := pending cl.qos2Pending }) := by
  have hclient : (b.setClient 0 fun cl => { cl with qos2Pending := pending cl.qos2Pending }).client 0 =
      { b.client 0 with qos2Pending := pending (b.client 0).qos2Pending } := by
    rw [client_setClient, if_pos rfl]
  constructor
  · exact h.clients
  · rw [hclient]
    exact h.isOpen
  · rw [hclient]
    exact h.subs
  · rw [hclient]
    exact h.ids

theorem Exhausted.publish (h : Exhausted b) (call : Call) :
    ((publish {} call hello).run.eval (fun _ => {}) b).2 = .error .halted := by
  have hmatch : matching hello.topic [⟨"a", 2⟩] = some ⟨"a", 2⟩ := by decide
  have hlive (b' : Broker) (hb' : Exhausted b') :
      ((publishLive call hello 0).run.eval (fun _ => {}) b').2 = .error .halted := by
    have hfound : (act call.conn fun _ b =>
        let found := matching hello.topic (b.client 0).subs
        (b.observe (found.toList.map (.matched call 0)), .ok found) : Act _).run.eval (fun _ => {}) b' =
          (b'.observe [.matched call 0 ⟨"a", 2⟩], .ok (some ⟨"a", 2⟩)) := by
      simp only [act, ExceptT.run_mk, eval_access, hb'.subs, hmatch]
      rfl
    unfold publishLive
    rw [eval_run_bind_ok hfound, eval_run_discard]
    change Except.map _ ((sendPublish call.conn 0 hello.topic hello.payload 2 false _).run.eval _ _).2 = _
    rw [eval_sendPublish_two, (hb'.observe _).ids]
    rfl
  have hwalk : (walk call.conn Broker.clients (.publish hello) [.publishing call hello]).run.eval (fun _ => {}) b =
      (b.observe [.publishing call hello], .ok [0]) := by
    simp only [walk, act, ExceptT.run_mk, eval_access, h.clients]
  unfold Mqtt.publish
  rw [eval_run_bind_ok hwalk]
  apply eval_run_bind_error
  apply eval_run_bind_error
  exact hlive _ (h.observe _)

theorem eval_requireWrite (b : Broker) (topic : String) :
    (requireWrite {} 0 topic).run.eval (fun _ => {}) b = (b, .ok ()) := rfl

theorem Exhausted.onPubrel (h : Exhausted b) {published : Nat}
    (hpending : (b.client 0).qos2Pending[7]? = some { msg := hello, index := published }) :
    ((onPubrel {} 0 1 [0, 7]).run.eval (fun _ => {}) b).2 = .error .halted := by
  have hrelease : (act 0 fun _ b => (b.release 0 1 7, .ok (b.client 0).qos2Pending[7]?) : Act _).run.eval
      (fun _ => {}) b = (b.release 0 1 7, .ok (some { msg := hello, index := published })) := by
    rw [← hpending]
    rfl
  have hreleased : Exhausted (b.release 0 1 7) := Exhausted.observe (h.setClient fun ids => ids.erase 7) _
  have hhandle : (handle {} 0 published hello).run.eval (fun _ => {}) (b.release 0 1 7) =
      ((b.release 0 1 7).observe [.handled 0 published hello true], .ok ()) := rfl
  have hid : readID [0, 7] = some (7, []) := rfl
  unfold Mqtt.onPubrel
  rw [hid]
  dsimp only
  rw [eval_run_bind_ok hrelease, eval_run_bind_ok (eval_requireWrite _ _), eval_run_bind_ok hhandle]
  apply eval_run_bind_error
  exact (hreleased.observe _).publish _

theorem Exhausted.serveLoop (h : Exhausted b) :
    ((serveLoop {} 0 true 0 [helloPublish, helloPubrel]).run.eval (fun _ => {}) b).2 = .error .halted := by
  have hparse : parsePublish 4 [0, 1, 97, 0, 7, 120] = some (hello, 7) := by decide
  let b₁ := (b.observe [.read 0 0 helloPublish]).hold 0 7 { msg := hello, index := 0 }
  have hheld : Exhausted b₁ :=
    Exhausted.observe ((h.observe _).setClient fun ids => ids.insert 7 { msg := hello, index := 0 }) _
  have hpublish : (onPacket {} 0 true 0 helloPublish).run.eval (fun _ => {}) (b.observe [.read 0 0 helloPublish]) =
      (b₁.observe [.wrote 0 (.pubrec 7)], .ok true) := by
    have hcap (b : Broker) : (requireCap {} 0).run.eval (fun _ => {}) b = (b, .ok ()) := rfl
    have hhold : (onPublish {} 0 0 4 [0, 1, 97, 0, 7, 120]).run.eval (fun _ => {}) (b.observe [.read 0 0 helloPublish]) =
        (b₁.observe [.wrote 0 (.pubrec 7)], .ok ()) := by
      unfold onPublish
      rw [hparse]
      dsimp only
      rw [eval_run_bind_ok (hcap _), eval_run_bind_ok (eval_requireWrite _ _), if_pos (show hello.qos = 2 from rfl),
        eval_run_bind_ok (eval_update 0 _ _), eval_answer, hheld.isOpen]
      rfl
    exact eval_run_bind_ok hhold _
  have hread (b : Broker) (index : Nat) (packet : Packet) :
      (update 0 (fun b => b.observe [.read 0 index packet]) (.read packet)).run.eval (fun _ => {}) b =
        (b.observe [.read 0 index packet], .ok ()) := rfl
  rw [Mqtt.serveLoop, eval_run_bind_ok (hread b 0 helloPublish), eval_run_bind_ok hpublish, Mqtt.serveLoop,
    eval_run_bind_ok (hread _ 1 helloPubrel)]
  apply eval_run_bind_error
  apply eval_run_bind_error
  have hpending : (b₁.client 0).qos2Pending[7]? = some { msg := hello, index := 0 } := by
    simp [b₁, Broker.hold, client_setClient]
  exact Exhausted.onPubrel ((hheld.observe _).observe _) hpending

/-- A client that has subscribed, with a number of messages on their way to it, none of them answered. -/
def crowded (n : Nat) : Broker :=
  { unanswered n with clients := [0] }.setClient 0 fun cl => { cl with subs := [⟨"a", 2⟩] }

theorem exhausted_crowded {n : Nat} (hn : n + 1 = 2 ^ 16) : Exhausted (crowded n) := by
  obtain ⟨hopen, -, hbusy⟩ := unanswered_ids (n := n) (by omega)
  have hclient : (crowded n).client 0 = { (unanswered n).client 0 with subs := [⟨"a", 2⟩] } := by
    unfold crowded
    rw [client_setClient, if_pos rfl]
  constructor
  · rfl
  · rw [hclient]
    exact hopen
  · rw [hclient]
  · rw [hclient]
    cases hfound : freeID (fun id => ((unanswered n).client 0).qos2Out.contains id) (2 ^ 16)
        ((unanswered n).client 0).nextOutID with
    | none => rfl
    | some found =>
      obtain ⟨hpos, hlt, hfree⟩ := freeID_found hfound
      have hcontains := (hbusy found).mpr ⟨hpos, by omega⟩
      rw [hfree] at hcontains
      cases hcontains

theorem qos2Pending_unanswered (n : Nat) : ((unanswered n).client 0).qos2Pending = ∅ := by
  induction n with
  | zero => rfl
  | succ n ih =>
    rw [unanswered_succ, eval_sendPublish_two]
    split
    · exact ih
    · split
      · rw [client_setClient, if_pos rfl, client_registerOut]
        exact ih
      · rw [observe_client, client_registerOut]
        exact ih

theorem smooth_default (label : Label) (b : Broker) : Smooth {} 0 label {} b := ⟨fun _ _ => rfl, fun _ => .inl rfl⟩

/-- The handshakes are not exact on a connection that has subscribed to what it publishes and
answers nothing: with 65535 messages on their way to it, the PUBREL of one more hangs. -/
theorem not_handshakesExact_crowded : ¬ HandshakesExact {} 0 (Smooth {} 0) := by
  intro h
  obtain ⟨n, hn⟩ : ∃ n, n + 1 = 2 ^ 16 := ⟨65535, rfl⟩
  have hb := exhausted_crowded hn
  have hpending : ((crowded n).client 0).qos2Pending = ∅ := by
    unfold crowded
    rw [client_setClient, if_pos rfl]
    exact qos2Pending_unanswered n
  have hclients : (crowded n).clients.Nodup := by
    rw [hb.clients]
    exact nodup_singleton 0
  have hkeeps := h (crowded n) 0 _ _ hello_shakes hb.isOpen hpending hclients fun _ _ _ => rfl
  have hend := (hkeeps.eval (fun _ _ => rfl) trivial (fun _ => {}) smooth_default).2.1
  rw [hb.serveLoop] at hend
  cases hend

/-- One handshake on a connection that no one listens to. -/
theorem handshakesExact_hello :
    (serveLoop {} 0 true 0 [helloPublish, helloPubrel]).run.Keeps
      (.sole fun label choice b => Smooth {} 0 label choice b ∧ RoomyRead 0 label b)
      (fun result b' => result = .error .returned ∧ Reacts 0 {} b' [.pubrec 7, .handled hello, .pubcomp 7]) {} :=
  handshakesExact_of_roomy {} rfl 0 {} 0 _ _ hello_shakes rfl rfl nodup_nil fun _ _ _ => rfl

end Nodra.Mqtt
