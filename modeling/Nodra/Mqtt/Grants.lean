import Nodra.Mqtt.Framing
import Nodra.Mqtt.PacketIDs

/-! The QoS that a client is granted for its filters, and the QoS that its messages have. -/
namespace Nodra.Mqtt
open Lines Router Std Interleave Program List Option

variable {grants : List Subscription} {msg : Message} {sub : Subscription} {cfg : Config} {conn : Nat}
  {b b' : Broker} {oracle : Label → Choice}

def grantsOf (subs : List Subscription) (codes : List Nat) : List Subscription :=
  (subs.zip codes).filterMap fun (sub, code) => if code = 0x80 then none else some { sub with qos := code }

def subacks (conn : Nat) (os : List Observation) : List (List Nat) :=
  os.filterMap fun
    | .wrote target (.suback _ codes) => if target = conn then some codes else none
    | _ => none

def grantsFor (packets : List Bytes) (codes : List (List Nat)) : List Subscription :=
  (packets.zip codes).flatMap fun (packet, codes) =>
    grantsOf (((parseSubscribe packet).map Prod.snd).getD []) codes

def latestGrant (grants : List Subscription) (filter : String) : Option Nat :=
  (grants.reverse.find? fun sub => sub.filter = filter).map Subscription.qos

def currentGrants (grants : List Subscription) (topic : String) : List Nat :=
  (grants.filter fun sub => isMatch sub.filter topic).filterMap fun sub => latestGrant grants sub.filter

def grantedQos (grants : List Subscription) (msg : Message) : Nat :=
  min msg.qos ((currentGrants grants msg.topic).max?.getD 0)

def IsOldest (grants : List Subscription) (topic : String) (sub : Subscription) : Prop :=
  isMatch sub.filter topic ∧ ∃ older newer, grants = older ++ sub :: newer ∧
    ∀ other ∈ older, isMatch other.filter topic = false

/-- Up to the QoS of the message, no filter that matches has been granted more since the oldest of
their grants, and one of them still has as much. -/
def OldestStands (grants : List Subscription) (msg : Message) : Prop :=
  ∀ oldest, IsOldest grants msg.topic oldest →
    (∀ qos ∈ currentGrants grants msg.topic, min msg.qos qos ≤ oldest.qos) ∧
    ∃ qos ∈ currentGrants grants msg.topic, min msg.qos oldest.qos ≤ qos

theorem matching_eq_some_iff {topic : String} : matching topic grants = some sub ↔ IsOldest grants topic sub := by
  unfold matching IsOldest
  rw [find?_eq_some_iff_append]
  simp

theorem exists_latestGrant (h : sub ∈ grants) : ∃ qos, latestGrant grants sub.filter = some qos := by
  have hsome : (grants.reverse.find? fun other => other.filter = sub.filter).isSome := by
    rw [find?_isSome]
    exact ⟨sub, mem_reverse.mpr h, by simp⟩
  obtain ⟨last, hlast⟩ := isSome_iff_exists.mp hsome
  exact ⟨last.qos, by rw [latestGrant, hlast]; rfl⟩

theorem currentGrants_ne_nil {topic : String} (h : sub ∈ grants) (hmatch : isMatch sub.filter topic) :
    currentGrants grants topic ≠ [] := by
  obtain ⟨qos, hqos⟩ := exists_latestGrant h
  refine ne_nil_of_mem (a := qos) ?_
  exact mem_filterMap.mpr ⟨sub, mem_filter.mpr ⟨h, hmatch⟩, hqos⟩

theorem min_eq_grantedQos_iff (hold : matching msg.topic grants = some sub) :
    min msg.qos sub.qos = grantedQos grants msg ↔ OldestStands grants msg := by
  have holdest := matching_eq_some_iff.mp hold
  have hmem : sub ∈ grants := mem_of_find?_eq_some hold
  have hne := currentGrants_ne_nil hmem holdest.1
  obtain ⟨most, hmost⟩ : ∃ most, (currentGrants grants msg.topic).max? = some most :=
    isSome_iff_exists.mp (isSome_max?_of_ne_nil hne)
  obtain ⟨hcurrent, hbound⟩ := max?_eq_some_iff.mp hmost
  rw [grantedQos, hmost, getD_some]
  constructor
  · intro heq oldest h
    cases (matching_eq_some_iff.mpr h).symm.trans hold
    refine ⟨fun qos hqos => ?_, most, hcurrent, ?_⟩
    · have := hbound qos hqos
      omega
    · omega
  · intro h
    obtain ⟨hless, qos, hqos, hleast⟩ := h sub holdest
    have := hless most hcurrent
    have := hbound qos hqos
    omega

section

variable {subs : List Subscription}

def Broker.grant (b : Broker) (conn : Nat) (granted : List Subscription) : Broker :=
  let all := (b.client conn).subs ++ granted
  let b' := b.setClient conn fun cl => { cl with subs := cl.subs ++ granted }
  match (b.client conn).session with
  | some i => (b'.setSession i fun s => { s with subs := all }).observe [.granted i all]
  | none => b'

def permitted (cfg : Config) (username : String) (subs : List Subscription) : List Subscription :=
  subs.filter fun sub => permit cfg username sub.filter false

theorem eval_onSubscribe {payload : Bytes} {pid : Nat} (hparse : parseSubscribe payload = some (pid, subs)) :
    (onSubscribe cfg conn payload).run.eval oracle b =
      (answer conn (.suback pid (returnCodes cfg ((b.client conn).username.getD "") subs)) []).run.eval oracle
        (b.grant conn (permitted cfg ((b.client conn).username.getD "") subs)) := by
  have hname : (username conn).run.eval oracle b = (b, .ok ((b.client conn).username.getD "")) := rfl
  unfold onSubscribe
  rw [hparse]
  dsimp only
  rw [eval_run_bind_ok hname]
  generalize (b.client conn).username.getD "" = name
  have hlook (b₁ : Broker) : (look conn fun b => (b.client conn).session).run.eval oracle b₁ =
      (b₁, .ok (b₁.client conn).session) := rfl
  rw [eval_run_bind_ok rfl, eval_run_bind_ok (hlook _), client_setClient, if_pos rfl, Broker.grant]
  dsimp only
  cases (b.client conn).session <;> rfl

theorem eval_answer_ok {reply : Reply} {meaning : List Observation}
    (h : (answer conn reply meaning).run.eval oracle b = (b', .ok ())) :
    b' = b.observe (.wrote conn reply :: meaning) := by
  unfold answer at h
  rw [eval_run_bind, eval_write] at h
  split at h
  · next heq =>
    split at heq
    · cases heq
      cases h
    · cases heq
      cases h
      rfl
  · cases h

structure Granted (conn : Nat) (grants : List Subscription) (b b' : Broker) : Prop where
  client : b'.client conn = { b.client conn with subs := (b.client conn).subs ++ grants }
  session : ∀ i ∈ (b.client conn).session, (b.session i).subs = (b.client conn).subs →
    b'.session i = { b.session i with subs := (b.client conn).subs ++ grants }

theorem granted_nil (conn : Nat) (b : Broker) : Granted conn [] b b where
  client := by rw [append_nil]
  session := by
    intro i _ h
    rw [append_nil, ← h]

theorem Granted.trans {more : List Subscription} {b'' : Broker} (h : Granted conn grants b b')
    (h' : Granted conn more b' b'') : Granted conn (grants ++ more) b b'' where
  client := by rw [h'.client, h.client, append_assoc]
  session := by
    intro i hi hsubs
    have hsession := h.session i hi hsubs
    have hi' : i ∈ (b'.client conn).session := by rw [h.client]; exact hi
    rw [h'.session i hi' (by rw [hsession, h.client]), hsession, h.client, append_assoc]

theorem granted_grant (granted : List Subscription) (os : List Observation) :
    Granted conn granted b ((b.grant conn granted).observe os) := by
  unfold Broker.grant
  cases hsession : (b.client conn).session with
  | none =>
    constructor
    · simp [client_setClient]
    · simp [hsession]
  | some i =>
    constructor
    · simp [client_setClient, Broker.setSession]
    · intro j hj _
      cases hsession.symm.trans hj
      simp [session_setSession, Broker.setClient]

theorem qos_of_parseSubscribe {payload : Bytes} {pid : Nat} (hparse : parseSubscribe payload = some (pid, subs)) :
    ∀ sub ∈ subs, sub.qos < 3 := by
  obtain ⟨-, entries, -, -, rfl⟩ := (parseSubscribe_iff _ _ _).mp hparse
  intro sub hsub
  obtain ⟨entry, -, rfl⟩ := List.mem_map.mp hsub
  exact entry.2.isLt

theorem grantsOf_returnCodes (name : String) (hqos : ∀ sub ∈ subs, sub.qos < 3) :
    grantsOf subs (returnCodes cfg name subs) = permitted cfg name subs := by
  induction subs with
  | nil => rfl
  | cons sub subs ih =>
    have hrest := ih fun other hother => hqos other (mem_cons_of_mem _ hother)
    have hsub := hqos sub mem_cons_self
    unfold grantsOf returnCodes permitted at hrest ⊢
    rw [map_cons, zip_cons_cons, filterMap_cons, filter_cons, hrest]
    by_cases hpermit : permit cfg name sub.filter false = true
    · simp [hpermit, show sub.qos ≠ 0x80 by omega]
    · simp [hpermit]

theorem exists_history_grant (b : Broker) (conn : Nat) (granted : List Subscription) :
    ∃ os, (b.grant conn granted).history = b.history ++ os ∧ subacks conn os = [] := by
  unfold Broker.grant
  cases (b.client conn).session with
  | none => exact ⟨[], by simp, rfl⟩
  | some i => exact ⟨[.granted i ((b.client conn).subs ++ granted)], by simp, rfl⟩

theorem granted_onSubscribe {payload : Bytes} (h : (onSubscribe cfg conn payload).run.eval oracle b = (b', .ok ())) :
    ∃ os codes, b'.history = b.history ++ os ∧ subacks conn os = [codes] ∧
      Granted conn (grantsFor [payload] [codes]) b b' := by
  cases hparse : parseSubscribe payload with
  | none =>
    rw [onSubscribe, hparse] at h
    cases h
  | some read =>
    obtain ⟨pid, subs⟩ := read
    rw [eval_onSubscribe hparse] at h
    obtain ⟨os, hos, hnone⟩ := exists_history_grant b conn
      (permitted cfg ((b.client conn).username.getD "") subs)
    have hb' := eval_answer_ok h
    generalize (b.client conn).username.getD "" = name at h hos hb'
    refine ⟨os ++ [.wrote conn (.suback pid (returnCodes cfg name subs))], returnCodes cfg name subs, ?_, ?_, ?_⟩
    · rw [hb', observe_history, hos, append_assoc]
    · simp [subacks, filterMap_append] at hnone ⊢
      exact hnone
    · have hgrants : grantsFor [payload] [returnCodes cfg name subs] = permitted cfg name subs := by
        simp [grantsFor, hparse, grantsOf_returnCodes name (qos_of_parseSubscribe hparse)]
      rw [hgrants, hb']
      exact granted_grant _ _

theorem granted_subscribes {packets : List Bytes}
    (h : (packets.forM (onSubscribe cfg conn)).run.eval oracle b = (b', .ok ())) :
    ∃ os, b'.history = b.history ++ os ∧ Granted conn (grantsFor packets (subacks conn os)) b b' := by
  induction packets generalizing b with
  | nil =>
    cases h
    exact ⟨[], by simp, granted_nil conn _⟩
  | cons packet packets ih =>
    change (onSubscribe cfg conn packet >>= fun _ => packets.forM (onSubscribe cfg conn)).run.eval oracle b = _ at h
    rw [eval_run_bind] at h
    split at h
    · next b₁ _ hfirst =>
      obtain ⟨os₁, codes, hos₁, hcodes, hgranted₁⟩ := granted_onSubscribe hfirst
      obtain ⟨os, hos, hgranted⟩ := ih h
      have hacks : subacks conn (os₁ ++ os) = codes :: subacks conn os := by
        rw [subacks, filterMap_append]
        exact congrArg (· ++ _) hcodes
      refine ⟨os₁ ++ os, ?_, ?_⟩
      · rw [hos, hos₁, append_assoc]
      · rw [hacks]
        have hboth := hgranted₁.trans hgranted
        simpa [grantsFor] using hboth
    · cases h

end

def observed (oracle : Label → Choice) (p : Act Unit) (b : Broker) : List Observation :=
  (p.run.eval oracle b).1.history.drop b.history.length

def sentQos (conn : Nat) (os : List Observation) : List Nat :=
  os.filterMap fun
    | .wrote target (.publish _ _ qos _ _) => if target = conn then some qos else none
    | _ => none

def queuedQos (i : Nat) (os : List Observation) : List Nat :=
  os.filterMap fun
    | .queued j entry => if j = i then some entry.msg.qos else none
    | _ => none

def Unfailing (oracle : Label → Choice) : Prop := ∀ label, (oracle label).fails = false

/-- A connection that is served, with its session, and that has a packet id left. -/
structure Attached (conn : Nat) (b : Broker) : Prop where
  isOpen : (b.client conn).closed = false
  free : ∃ id, 0 < id ∧ id < 2 ^ 16 ∧ (b.client conn).qos2Out.contains id = false
  live : ∀ i ∈ (b.client conn).session, (b.session i).live = some conn
  durable : ∀ i ∈ (b.client conn).session, (b.session i).closed = false
  subs : ∀ i ∈ (b.client conn).session, (b.session i).subs = (b.client conn).subs

theorem sentQos_sendPublish (caller : Nat) (hunfailing : Unfailing oracle) (hopen : (b.client conn).closed = false)
    (hfree : ∃ id, 0 < id ∧ id < 2 ^ 16 ∧ (b.client conn).qos2Out.contains id = false) (topic : String)
    (payload : Bytes) (qos : Nat) (meaning : Nat → List Observation) (hmeaning : ∀ pid, sentQos conn (meaning pid) = []) :
    ∃ os, ((sendPublish caller conn topic payload qos false meaning).run.eval oracle b).1.history = b.history ++ os ∧
      sentQos conn os = [qos] := by
  obtain ⟨pid, hpid⟩ : ∃ pid, freeID (fun id => (b.client conn).qos2Out.contains id) (2 ^ 16)
      (b.client conn).nextOutID = some pid := exists_freeID_iff.mpr hfree
  have hwrote (pid : Nat) : sentQos conn (.wrote conn (.publish topic payload qos false pid) :: meaning pid) = [qos] := by
    have hrest := hmeaning pid
    unfold sentQos at hrest ⊢
    simp [hrest]
  by_cases htwo : qos = 2
  · subst htwo
    rw [eval_sendPublish_two, hpid]
    simp only [hunfailing _, hopen, Bool.or_false, Bool.false_eq_true, if_false]
    exact ⟨_, rfl, hwrote pid⟩
  · rw [eval_sendPublish_of_ne_two caller topic payload htwo]
    by_cases hpos : qos > 0
    · rw [if_pos hpos, eval_nextOutPacketID, hpid]
      simp only [hunfailing _, client_setClient, if_pos, hopen, Bool.or_false, Bool.false_eq_true, if_false]
      exact ⟨_, rfl, hwrote pid⟩
    · rw [if_neg hpos, eval_run_pure]
      simp only [hunfailing _, hopen, Bool.or_false, Bool.false_eq_true, if_false]
      exact ⟨_, rfl, hwrote 0⟩

theorem sentQos_publishLive (hb : Attached conn b) (hold : matching msg.topic (b.client conn).subs = some sub)
    (call : Call) (hunfailing : Unfailing oracle) :
    sentQos conn (observed oracle (publishLive call msg conn) b) = [min msg.qos sub.qos] := by
  let b₁ := b.observe [.matched call conn sub]
  obtain ⟨os, hos, hqos⟩ := sentQos_sendPublish (b := b₁) call.conn hunfailing hb.isOpen hb.free msg.topic msg.payload
    (min msg.qos sub.qos) (fun pid => [.sent call conn pid sub.filter msg]) fun _ => rfl
  have hfound : (publishLive call msg conn).run.eval oracle b =
      (discard (sendPublish call.conn conn msg.topic msg.payload (min msg.qos sub.qos) false
        fun pid => [.sent call conn pid sub.filter msg])).run.eval oracle b₁ := by
    unfold publishLive
    rw [eval_run_bind_ok rfl]
    simp only [hold]
    rfl
  rw [observed, hfound, eval_run_discard, hos]
  simp [b₁, sentQos] at hqos ⊢
  exact hqos

theorem session_close {i : Nat} (hi : i ∈ (b.client conn).session) (hlive : (b.session i).live = some conn) :
    ((close conn).run.eval oracle b).1.session i = { b.session i with live := none } := by
  have hsession : ((b.setClient conn fun cl => { cl with closed := true }).client conn).session = some i := by
    rw [client_setClient, if_pos rfl]
    exact hi
  have hlook (b₁ : Broker) (h : (b₁.client conn).session = some i) :
      (look conn fun b => (b.client conn).session).run.eval oracle b₁ = (b₁, .ok (some i)) := by
    rw [← h]
    rfl
  unfold close
  rw [eval_run_bind_ok rfl, eval_run_bind_ok rfl, eval_run_bind_ok (hlook _ ?_)]
  · change ((b.setClient conn fun cl => { cl with closed := true }).setSession i _).session i = _
    rw [session_setSession, if_pos rfl]
    exact if_pos hlive
  · exact hsession

theorem queuedQos_publishQueued {i : Nat} (hlive : (b.session i).live = none) (hopen : (b.session i).closed = false)
    (hold : matching msg.topic (b.session i).subs = some sub) (call : Call) (hunfailing : Unfailing oracle) :
    queuedQos i (observed oracle (publishQueued call msg i) b) = [min msg.qos sub.qos] := by
  have hlook : (look call.conn fun b => (b.session i).live.isSome).run.eval oracle b = (b, .ok false) := by
    change (b, Except.ok (b.session i).live.isSome) = _
    rw [hlive]
    rfl
  let b₁ := b.observe [.selected call i sub]
  have hfound : (publishQueued call msg i).run.eval oracle b =
      (enqueue call i msg.topic msg.payload (min msg.qos sub.qos) sub.filter).run.eval oracle b₁ := by
    unfold publishQueued
    rw [eval_run_bind_ok hlook, if_neg Bool.false_ne_true, eval_run_bind_ok rfl]
    simp only [hold]
    rfl
  have hclosed : ((b₁.setSession i fun s => { s with seq := s.seq + 1 }).session i).closed = false := by
    rw [session_setSession, if_pos rfl]
    exact hopen
  rw [observed, hfound, enqueue, eval_run_bind_ok rfl]
  simp only [changeQueue, act, ExceptT.run_mk, eval_access, hunfailing _, observe_session, hclosed]
  simp [b₁, queuedQos]

section

variable {packets : List Bytes} {qos : Nat}

/-- The grants of a client after SUBSCRIBEs: those it has from its session, and those of the SUBACKs. -/
def grantsSince (conn : Nat) (packets : List Bytes) (b b' : Broker) : List Subscription :=
  (b.client conn).subs ++ grantsFor packets (subacks conn (b'.history.drop b.history.length))

/-- The QoS of a message to a client, while it is connected and when it is gone. -/
structure HasQos (conn : Nat) (b : Broker) (msg : Message) (qos : Nat) : Prop where
  live : ∀ call oracle, Unfailing oracle → sentQos conn (observed oracle (publishLive call msg conn) b) = [qos]
  queued : ∀ i ∈ (b.client conn).session, ∀ call oracle, Unfailing oracle →
    queuedQos i (observed oracle (publishQueued call msg i) ((close conn).run.eval oracle b).1) = [qos]

theorem Granted.attached (hb : Attached conn b) (h : Granted conn grants b b') : Attached conn b' := by
  have hsession : ∀ i ∈ (b'.client conn).session, i ∈ (b.client conn).session ∧
      b'.session i = { b.session i with subs := (b.client conn).subs ++ grants } := by
    intro i hi
    rw [h.client] at hi
    exact ⟨hi, h.session i hi (hb.subs i hi)⟩
  refine ⟨?_, ?_, fun i hi => ?_, fun i hi => ?_, fun i hi => ?_⟩
  · rw [h.client]
    exact hb.isOpen
  · rw [h.client]
    exact hb.free
  · rw [(hsession i hi).2]
    exact hb.live i (hsession i hi).1
  · rw [(hsession i hi).2]
    exact hb.durable i (hsession i hi).1
  · rw [(hsession i hi).2, h.client]

theorem hasQos_iff (hb : Attached conn b) (hold : matching msg.topic (b.client conn).subs = some sub) :
    HasQos conn b msg qos ↔ min msg.qos sub.qos = qos := by
  constructor
  · intro h
    have hlive := h.live ⟨conn, 0⟩ (fun _ => {}) fun _ => rfl
    rw [sentQos_publishLive hb hold _ fun _ => rfl] at hlive
    exact singleton_inj.mp hlive
  · rintro rfl
    refine ⟨fun call oracle => sentQos_publishLive hb hold call, fun i hi call oracle hunfailing => ?_⟩
    have hsession : ((close conn).run.eval oracle b).1.session i = _ := session_close hi (hb.live i hi)
    refine queuedQos_publishQueued ?_ ?_ ?_ call hunfailing
    · rw [hsession]
    · rw [hsession]
      exact hb.durable i hi
    · rw [hsession]
      exact (congrArg _ (hb.subs i hi)).trans hold

theorem subs_of_subscribes (hb : Attached conn b)
    (h : (packets.forM (onSubscribe cfg conn)).run.eval oracle b = (b', .ok ())) :
    Attached conn b' ∧ (b'.client conn).subs = grantsSince conn packets b b' := by
  obtain ⟨os, hos, hgranted⟩ := granted_subscribes h
  refine ⟨hgranted.attached hb, ?_⟩
  rw [hgranted.client, grantsSince, hos, drop_left]

/-- A client gets its messages with the QoS it was granted exactly if the oldest grant that matches
stands: the later ones are not looked at. -/
theorem hasQos_granted_iff (hb : Attached conn b)
    (h : (packets.forM (onSubscribe cfg conn)).run.eval oracle b = (b', .ok ()))
    (hmatch : ∃ sub ∈ grantsSince conn packets b b', isMatch sub.filter msg.topic) :
    HasQos conn b' msg (grantedQos (grantsSince conn packets b b') msg) ↔
      OldestStands (grantsSince conn packets b b') msg := by
  obtain ⟨hattached, hsubs⟩ := subs_of_subscribes hb h
  obtain ⟨sub, hold⟩ : ∃ sub, matching msg.topic (grantsSince conn packets b b') = some sub :=
    isSome_iff_exists.mp (find?_isSome.mpr hmatch)
  rw [hasQos_iff hattached (hsubs ▸ hold), min_eq_grantedQos_iff hold]

def persistentConnect : Bytes := [0, 4, 77, 81, 84, 84, 4, 0, 0, 60, 0, 1, 99]

def subscriber : Broker :=
  ((do accept 0 {}; onConnect {} 0 persistentConnect : Act Unit).run.eval (fun _ => {}) {}).1

def subscribeA (qos : UInt8) : Bytes := [0, 1, 0, 1, 97, qos]

theorem attached_subscriber : Attached 0 subscriber := by
  have hsession : (subscriber.client 0).session = some 0 := by decide
  refine ⟨by decide, ⟨1, by decide, by decide, by decide⟩, ?_, ?_, ?_⟩
  all_goals
    intro i hi
    cases hsession.symm.trans hi
    decide

def subscribedA (qos : List UInt8) : Broker :=
  (((qos.map subscribeA).forM (onSubscribe {} 0)).run.eval (fun _ => {}) subscriber).1

def noteA : Message := { topic := "a", payload := [], qos := 1 }

/-- A client that was granted QoS 1 and then QoS 2 for `a` gets a message of QoS 1 as it should. -/
theorem hasQos_granted_one_two :
    HasQos 0 (subscribedA [1, 2]) noteA
      (grantedQos (grantsSince 0 ([1, 2].map subscribeA) subscriber (subscribedA [1, 2])) noteA) := by
  have hdone : (([1, 2].map subscribeA).forM (onSubscribe {} 0)).run.eval (fun _ => {}) subscriber =
      (subscribedA [1, 2], .ok ()) := Prod.ext rfl (by decide)
  have hgrants : grantsSince 0 ([1, 2].map subscribeA) subscriber (subscribedA [1, 2]) = [⟨"a", 1⟩, ⟨"a", 2⟩] := by
    decide
  refine (hasQos_granted_iff attached_subscriber hdone (by rw [hgrants]; decide)).mpr ?_
  rw [hgrants]
  intro oldest h
  have hold : matching noteA.topic [⟨"a", 1⟩, ⟨"a", 2⟩] = some ⟨"a", 1⟩ := by decide
  cases hold.symm.trans (matching_eq_some_iff.mpr h)
  decide

/-- A client that was granted QoS 0 and then QoS 1 gets it with QoS 0. -/
theorem upgrade_ignored :
    Attached 0 subscriber ∧
      (([0, 1].map subscribeA).forM (onSubscribe {} 0)).run.eval (fun _ => {}) subscriber =
        (subscribedA [0, 1], .ok ()) ∧
      grantsSince 0 ([0, 1].map subscribeA) subscriber (subscribedA [0, 1]) = [⟨"a", 0⟩, ⟨"a", 1⟩] ∧
      isMatch "a" noteA.topic ∧
      ¬ HasQos 0 (subscribedA [0, 1]) noteA
        (grantedQos (grantsSince 0 ([0, 1].map subscribeA) subscriber (subscribedA [0, 1])) noteA) := by
  have hdone : (([0, 1].map subscribeA).forM (onSubscribe {} 0)).run.eval (fun _ => {}) subscriber =
      (subscribedA [0, 1], .ok ()) := Prod.ext rfl (by decide)
  have hgrants : grantsSince 0 ([0, 1].map subscribeA) subscriber (subscribedA [0, 1]) = [⟨"a", 0⟩, ⟨"a", 1⟩] := by
    decide
  obtain ⟨hattached, hsubs⟩ := subs_of_subscribes attached_subscriber hdone
  have hold : matching noteA.topic ((subscribedA [0, 1]).client 0).subs = some ⟨"a", 0⟩ := by
    rw [hsubs, hgrants]
    decide
  refine ⟨attached_subscriber, hdone, hgrants, by decide, ?_⟩
  rw [hasQos_iff hattached hold, hgrants]
  decide

end

end Nodra.Mqtt
