import Nodra.Mqtt.Replies
import Nodra.Mqtt.Steps

/-! The packet ids of the messages to a subscriber: which are in use, and when there is one left. -/
namespace Nodra.Mqtt
open Lines Std Interleave Program List

section

variable {busy : Nat → Bool} {fuel id found : Nat}

def bump (id : Nat) : Nat := if (id + 1) % 2 ^ 16 = 0 then 1 else (id + 1) % 2 ^ 16

theorem freeID_succ : freeID busy (fuel + 1) id = if busy (bump id) then freeID busy fuel (bump id) else some (bump id) :=
  rfl

theorem freeID_bump (h : busy (bump id) = false) : freeID busy (2 ^ 16) id = some (bump id) := by
  rw [show 2 ^ 16 = 65535 + 1 from rfl, freeID_succ, h]
  rfl

theorem bump_pos (id : Nat) : 0 < bump id := by
  unfold bump
  split <;> omega

theorem bump_lt (id : Nat) : bump id < 2 ^ 16 := by
  unfold bump
  split <;> omega

theorem bump_of_lt (h : id + 1 < 2 ^ 16) : bump id = id + 1 := by
  unfold bump
  split <;> omega

theorem freeID_found (h : freeID busy fuel id = some found) : 0 < found ∧ found < 2 ^ 16 ∧ busy found = false := by
  induction fuel generalizing id with
  | zero => cases h
  | succ fuel ih =>
    rw [freeID_succ] at h
    split at h
    · exact ih h
    · next hfree =>
      cases h
      exact ⟨bump_pos id, bump_lt id, by simpa using hfree⟩

theorem busy_of_freeID_none (h : freeID busy fuel id = none) {k : Nat} (hk : k < fuel) :
    busy (bump^[k + 1] id) = true := by
  induction fuel generalizing id k with
  | zero => omega
  | succ fuel ih =>
    rw [freeID_succ] at h
    split at h
    · next hbusy =>
      cases k with
      | zero => exact hbusy
      | succ k => exact ih h (by omega)
    · cases h

theorem iterate_bump {k : Nat} (h : id + k < 2 ^ 16) : bump^[k] id = id + k := by
  induction k with
  | zero => rfl
  | succ k ih =>
    rw [Function.iterate_succ_apply', ih (by omega), bump_of_lt (by omega)]
    omega

theorem bump_mod (id : Nat) : bump (id % 2 ^ 16) = bump id := by
  unfold bump
  rw [Nat.mod_add_mod]

theorem exists_iterate_bump (id : Nat) (hpos : 0 < found) (hfound : found < 2 ^ 16) :
    ∃ k < 2 ^ 16, bump^[k + 1] id = found := by
  suffices h : ∀ id < 2 ^ 16, ∃ k < 2 ^ 16, bump^[k + 1] id = found by
    obtain ⟨k, hk, hreach⟩ := h (id % 2 ^ 16) (Nat.mod_lt id (by decide))
    refine ⟨k, hk, ?_⟩
    rwa [Function.iterate_succ_apply, bump_mod, ← Function.iterate_succ_apply] at hreach
  intro id hid
  by_cases hlt : id < found
  · refine ⟨found - id - 1, by omega, ?_⟩
    rw [iterate_bump (by omega)]
    omega
  · -- up to the last id, on to the first, and from there
    refine ⟨(found - 1) + (2 ^ 16 - 1 - id), by omega, ?_⟩
    have hlast : bump^[2 ^ 16 - 1 - id] id = 2 ^ 16 - 1 := by
      rw [iterate_bump (by omega)]
      omega
    have hfirst : bump (2 ^ 16 - 1) = 1 := rfl
    have hsplit : found - 1 + (2 ^ 16 - 1 - id) + 1 = found - 1 + (1 + (2 ^ 16 - 1 - id)) := by omega
    rw [hsplit, Function.iterate_add_apply, Function.iterate_add_apply bump 1, hlast, Function.iterate_one, hfirst,
      iterate_bump (by omega)]
    omega

theorem exists_freeID_iff :
    (∃ found, freeID busy (2 ^ 16) id = some found) ↔ ∃ found, 0 < found ∧ found < 2 ^ 16 ∧ busy found = false := by
  constructor
  · rintro ⟨found, h⟩
    exact ⟨found, freeID_found h⟩
  · rintro ⟨found, hpos, hlt, hfree⟩
    cases hnone : freeID busy (2 ^ 16) id with
    | some found => exact ⟨found, rfl⟩
    | none =>
      obtain ⟨k, hk, hreach⟩ := exists_iterate_bump id hpos hlt
      have hbusy := busy_of_freeID_none hnone hk
      rw [hreach, hfree] at hbusy
      cases hbusy

end

section

/-- What is sent to a subscriber, by any connection, and what comes back from it. -/
inductive Exchange where
  | send (conn : Nat) (topic : String) (payload : Bytes) (qos : Nat) (dup : Bool)
  | pubrec (index : Nat) (payload : Bytes)
  | pubcomp (index : Nat) (payload : Bytes)

def received (conn index : Nat) (packet : Packet) (handler : Act Unit) : Act Unit := do
  update conn (fun b => b.observe [.read conn index packet]) (.read packet)
  handler

def Exchange.program (target : Nat) : Exchange → Act Unit
  | .send conn topic payload qos dup => discard (sendPublish conn target topic payload qos dup fun _ => [])
  | .pubrec index payload => received target index { typ := 5, flags := 0, payload } (onPubrec target payload)
  | .pubcomp index payload => received target index { typ := 7, flags := 0, payload } (onPubcomp target payload)

/-- The broker after some exchanges with one subscriber, each with choices of its own. -/
def exchanged (target : Nat) (exchanges : List (Exchange × (Label → Choice))) (b : Broker) : Broker :=
  exchanges.foldl (fun b e => ((e.1.program target).run.eval e.2 b).1) b

def Packet.completes (packet : Packet) (pid : Nat) : Bool :=
  packet.typ = 7 ∧ (readID packet.payload).map Prod.fst = some pid

/-- A message of QoS 2 was written to the subscriber under the id, and no PUBCOMP for it has been read since. -/
def Unfinished (target : Nat) (history : List Observation) (pid : Nat) : Prop :=
  ∃ before after topic payload dup, history = before ++ .wrote target (.publish topic payload 2 dup pid) :: after ∧
    ∀ index packet, .read target index packet ∈ after → packet.completes pid = false

variable {target pid : Nat} {history : List Observation}

theorem not_unfinished_nil : ¬ Unfinished target [] pid := by
  rintro ⟨before, after, topic, payload, dup, h, -⟩
  simp at h

variable {o : Observation} {ids : ExtTreeMap Nat OutPhase} {other n : Nat}

theorem unfinished_snoc :
    Unfinished target (history ++ [o]) pid ↔
      (∃ topic payload dup, o = .wrote target (.publish topic payload 2 dup pid)) ∨
        Unfinished target history pid ∧ ∀ index packet, o = .read target index packet → packet.completes pid = false := by
  constructor
  · rintro ⟨before, after, topic, payload, dup, h, hafter⟩
    cases after using List.reverseRecOn with
    | nil =>
      obtain ⟨-, ho⟩ := append_inj' h rfl
      exact .inl ⟨topic, payload, dup, singleton_inj.mp ho⟩
    | append_singleton after last =>
      rw [← cons_append, ← append_assoc] at h
      obtain ⟨rfl, ho⟩ := append_inj' h rfl
      obtain rfl := singleton_inj.mp ho
      refine .inr ⟨⟨before, after, topic, payload, dup, rfl, fun index packet hmem => ?_⟩, ?_⟩
      · exact hafter index packet (mem_append_left _ hmem)
      · rintro index packet rfl
        exact hafter index packet (mem_append_right _ (mem_singleton_self _))
  · rintro (⟨topic, payload, dup, rfl⟩ | ⟨⟨before, after, topic, payload, dup, rfl, hafter⟩, ho⟩)
    · exact ⟨history, [], topic, payload, dup, rfl, nofun⟩
    · refine ⟨before, after ++ [o], topic, payload, dup, by simp, fun index packet hmem => ?_⟩
      rcases mem_append.mp hmem with hmem | hmem
      · exact hafter index packet hmem
      · exact ho index packet (mem_singleton.mp hmem).symm

def TracksIDs (target : Nat) (b : Broker) : Prop :=
  ∀ pid, (b.client target).qos2Out.contains pid = true ↔ Unfinished target b.history pid

variable {b : Broker} {oracle : Label → Choice}

theorem eval_update (conn : Nat) (f : Broker → Broker) (point : Point) :
    (update conn f point).run.eval oracle b = (f b, .ok ()) := rfl

theorem eval_write (conn : Nat) (reply : Reply) (meaning : List Observation) :
    (write conn target reply meaning).run.eval oracle b =
      if (oracle ⟨conn, .write target reply⟩).fails || (b.client target).closed then (b, .ok false)
      else (b.observe (.wrote target reply :: meaning), .ok true) := rfl

theorem eval_nextOutPacketID (conn : Nat) :
    (nextOutPacketID conn target).run.eval oracle b =
      match freeID (fun id => (b.client target).qos2Out.contains id) (2 ^ 16) (b.client target).nextOutID with
      | none => (b, .error .halted)
      | some id => (b.setClient target fun cl => { cl with nextOutID := id }, .ok id) := rfl

def Broker.registerOut (b : Broker) (target pid : Nat) : Broker :=
  (b.setClient target fun cl => { cl with nextOutID := pid }).setClient target fun cl =>
    { cl with qos2Out := cl.qos2Out.insert pid .awaitPubrec }

theorem client_registerOut (target : Nat) (b : Broker) (pid : Nat) :
    (b.registerOut target pid).client target = { b.client target with
      nextOutID := pid, qos2Out := (b.client target).qos2Out.insert pid .awaitPubrec } := by
  simp [Broker.registerOut, Broker.setClient]

theorem eval_sendPublish_two (conn : Nat) (topic : String) (payload : Bytes) (dup : Bool)
    (meaning : Nat → List Observation) :
    (sendPublish conn target topic payload 2 dup meaning).run.eval oracle b =
      match freeID (fun id => (b.client target).qos2Out.contains id) (2 ^ 16) (b.client target).nextOutID with
      | none => (b, .error .halted)
      | some pid =>
        if (oracle ⟨conn, .write target (.publish topic payload 2 dup pid)⟩).fails || (b.client target).closed then
          ((b.registerOut target pid).setClient target fun cl => { cl with qos2Out := cl.qos2Out.erase pid }, .ok false)
        else
          ((b.registerOut target pid).observe (.wrote target (.publish topic payload 2 dup pid) :: meaning pid),
            .ok true) := by
  have hnext : (nextOutPacketID conn target).run.eval oracle b = _ := eval_nextOutPacketID conn
  cases hfree : freeID (fun id => (b.client target).qos2Out.contains id) (2 ^ 16) (b.client target).nextOutID with
  | none =>
    rw [hfree] at hnext
    simp [sendPublish, eval_run_bind, hnext]
  | some pid =>
    rw [hfree] at hnext
    have hclosed := congrArg Client.closed (client_registerOut target b pid)
    simp only [Broker.registerOut] at hclosed ⊢
    simp only [sendPublish, Nat.two_pos, eval_run_bind, hnext, if_true, eval_update, eval_write, hclosed]
    cases (oracle ⟨conn, .write target (.publish topic payload 2 dup pid)⟩).fails || (b.client target).closed <;> rfl

theorem eval_sendPublish_of_ne_two (conn : Nat) (topic : String) (payload : Bytes) {qos : Nat} (hqos : qos ≠ 2)
    (dup : Bool) (meaning : Nat → List Observation) :
    (sendPublish conn target topic payload qos dup meaning).run.eval oracle b =
      match (if qos > 0 then nextOutPacketID conn target else pure 0).run.eval oracle b with
      | (b', .error exit) => (b', .error exit)
      | (b', .ok pid) =>
        if (oracle ⟨conn, .write target (.publish topic payload qos dup pid)⟩).fails || (b'.client target).closed then
          (b', .ok false)
        else (b'.observe (.wrote target (.publish topic payload qos dup pid) :: meaning pid), .ok true) := by
  simp only [sendPublish, eval_run_bind]
  rcases (if qos > 0 then nextOutPacketID conn target else pure 0).run.eval oracle b with ⟨b', exit | pid⟩
  · rfl
  · simp only [hqos, if_false, eval_run_pure, eval_write]
    cases (oracle ⟨conn, .write target (.publish topic payload qos dup pid)⟩).fails || (b'.client target).closed <;> simp

theorem contains_insert_iff {phase : OutPhase} :
    (ids.insert pid phase).contains other = true ↔ other = pid ∨ ids.contains other = true := by
  rw [ExtTreeMap.contains_insert, Bool.or_eq_true, beq_iff_eq, LawfulEqCmp.compare_eq_iff_eq, eq_comm]

theorem contains_erase_iff :
    (ids.erase pid).contains other = true ↔ other ≠ pid ∧ ids.contains other = true := by
  rw [ExtTreeMap.contains_erase, Bool.and_eq_true, bne_iff_ne, Ne, LawfulEqCmp.compare_eq_iff_eq, eq_comm]

theorem TracksIDs.congr (hb : TracksIDs target b) {b' : Broker}
    (hbusy : ∀ pid, (b'.client target).qos2Out.contains pid = true ↔ (b.client target).qos2Out.contains pid = true)
    (hhistory : ∀ pid, Unfinished target b'.history pid ↔ Unfinished target b.history pid) :
    TracksIDs target b' := by
  intro pid
  rw [hbusy, hhistory]
  exact hb pid

def Observation.Aside (target : Nat) (o : Observation) : Prop :=
  ∀ pid, (∀ topic payload dup, o ≠ .wrote target (.publish topic payload 2 dup pid)) ∧
    ∀ index packet, o = .read target index packet → packet.completes pid = false

theorem TracksIDs.observe (hb : TracksIDs target b) (ho : o.Aside target) :
    TracksIDs target (b.observe [o]) := by
  refine hb.congr (fun _ => Iff.rfl) fun pid => ?_
  rw [observe_history, unfinished_snoc]
  constructor
  · rintro (⟨topic, payload, dup, rfl⟩ | ⟨h, -⟩)
    · exact absurd rfl ((ho pid).1 topic payload dup)
    · exact h
  · intro h
    exact .inr ⟨h, (ho pid).2⟩

theorem TracksIDs.register (hb : TracksIDs target b) (pid : Nat) (topic : String) (payload : Bytes) (dup : Bool) :
    TracksIDs target ((b.registerOut target pid).observe [.wrote target (.publish topic payload 2 dup pid)]) := by
  intro other
  have hhistory : (b.registerOut target pid).history = b.history := rfl
  simp only [observe_client, client_registerOut, observe_history, contains_insert_iff, hhistory, unfinished_snoc,
    hb other]
  refine or_congr ⟨?_, ?_⟩ ?_
  · rintro rfl
    exact ⟨topic, payload, dup, rfl⟩
  · rintro ⟨_, _, _, h⟩
    cases h
    rfl
  · simp

theorem TracksIDs.withdraw (hb : TracksIDs target b) {pid : Nat}
    (hfree : freeID (fun id => (b.client target).qos2Out.contains id) (2 ^ 16) (b.client target).nextOutID = some pid) :
    TracksIDs target
      ((b.registerOut target pid).setClient target fun cl => { cl with qos2Out := cl.qos2Out.erase pid }) := by
  obtain ⟨-, -, hnot⟩ := freeID_found hfree
  have hclient : (((b.registerOut target pid).setClient target fun cl =>
      { cl with qos2Out := cl.qos2Out.erase pid }).client target) = { b.client target with
        nextOutID := pid, qos2Out := ((b.client target).qos2Out.insert pid .awaitPubrec).erase pid } := by
    rw [client_setClient, if_pos rfl, client_registerOut]
  apply hb.congr
  · intro other
    rw [hclient]
    -- the id was free before
    have hfresh : (b.client target).qos2Out.contains other = true → other ≠ pid := by
      rintro hother rfl
      rw [hnot] at hother
      cases hother
    simp only [contains_erase_iff, contains_insert_iff]
    tauto
  · intro other
    rfl

theorem TracksIDs.allocate (hb : TracksIDs target b) (oracle : Label → Choice) (conn qos : Nat) :
    TracksIDs target ((if qos > 0 then nextOutPacketID conn target else pure 0).run.eval oracle b).1 := by
  split
  · rw [eval_nextOutPacketID]
    split
    · exact hb
    · next id _ =>
      have hclient : ((b.setClient target fun cl => { cl with nextOutID := id }).client target) =
          { b.client target with nextOutID := id } := by
        rw [client_setClient, if_pos rfl]
      apply hb.congr
      · intro pid
        rw [hclient]
      · intro pid
        rfl
  · exact hb

theorem TracksIDs.send (hb : TracksIDs target b) (conn : Nat) (topic : String) (payload : Bytes) (qos : Nat) (dup : Bool) :
    TracksIDs target (((Exchange.send conn topic payload qos dup).program target).run.eval oracle b).1 := by
  simp only [Exchange.program, eval_run_discard]
  by_cases hqos : qos = 2
  · subst hqos
    rw [eval_sendPublish_two]
    split
    · exact hb
    · next pid hfree =>
      split
      · exact hb.withdraw hfree
      · exact hb.register pid topic payload dup
  · rw [eval_sendPublish_of_ne_two conn topic payload hqos]
    have hid := hb.allocate oracle conn qos
    revert hid
    rcases (if qos > 0 then nextOutPacketID conn target else pure 0).run.eval oracle b with ⟨b', exit | pid⟩
    · exact id
    · intro hid
      dsimp only at hid ⊢
      split
      · exact hid
      · apply hid.observe
        intro other
        simp [hqos]

theorem eval_answer (conn : Nat) (reply : Reply) (meaning : List Observation) :
    (answer conn reply meaning).run.eval oracle b =
      if (oracle ⟨conn, .write conn reply⟩).fails || (b.client conn).closed then (b, .error .returned)
      else (b.observe (.wrote conn reply :: meaning), .ok ()) := by
  simp only [answer, eval_run_bind, eval_write]
  cases (oracle ⟨conn, .write conn reply⟩).fails || (b.client conn).closed <;> rfl

theorem TracksIDs.pubrec (hb : TracksIDs target b) (index : Nat) (payload : Bytes) :
    TracksIDs target (((Exchange.pubrec index payload).program target).run.eval oracle b).1 := by
  have hread : TracksIDs target (b.observe [.read target index { typ := 5, flags := 0, payload }]) := by
    apply hb.observe
    simp [Observation.Aside, Packet.completes]
  simp only [Exchange.program, received, eval_run_bind, eval_update, onPubrec]
  generalize b.observe [.read target index { typ := 5, flags := 0, payload }] = b₁ at hread ⊢
  cases hid : readID payload with
  | none => exact hread
  | some read =>
    obtain ⟨pid, rest⟩ := read
    simp only [eval_run_bind, act, ExceptT.run_mk, eval_access]
    by_cases hbusy : (b₁.client target).qos2Out.contains pid = true
    · -- the message goes on to its second phase
      have hphase : TracksIDs target (b₁.setClient target fun cl =>
          { cl with qos2Out := cl.qos2Out.insert pid .awaitPubcomp }) := by
        apply hread.congr
        · intro other
          rw [client_setClient, if_pos rfl, contains_insert_iff]
          constructor
          · rintro (rfl | h)
            · exact hbusy
            · exact h
          · exact .inr
        · exact fun _ => Iff.rfl
      simp only [hbusy, if_true, eval_answer]
      split
      · exact hphase
      · apply hphase.observe
        simp [Observation.Aside]
    · simp only [hbusy]
      exact hread

theorem TracksIDs.pubcomp (hb : TracksIDs target b) (index : Nat) (payload : Bytes) :
    TracksIDs target (((Exchange.pubcomp index payload).program target).run.eval oracle b).1 := by
  simp only [Exchange.program, received, eval_run_bind, eval_update, onPubcomp]
  cases hid : readID payload with
  | none =>
    apply hb.observe
    simp [Observation.Aside, Packet.completes, hid]
  | some read =>
    obtain ⟨pid, rest⟩ := read
    simp only [eval_update]
    intro other
    have hhistory : ((b.observe [.read target index { typ := 7, flags := 0, payload }]).setClient target fun cl =>
        { cl with qos2Out := cl.qos2Out.erase pid }).history =
          b.history ++ [.read target index { typ := 7, flags := 0, payload }] := rfl
    rw [client_setClient, if_pos rfl, hhistory, unfinished_snoc, observe_client, contains_erase_iff, hb]
    constructor
    · rintro ⟨hother, hunfinished⟩
      refine .inr ⟨hunfinished, ?_⟩
      rintro _ _ ⟨⟩
      simpa [Packet.completes, hid] using Ne.symm hother
    · rintro (⟨_, _, _, ⟨⟩⟩ | ⟨hunfinished, hread⟩)
      have hother := hread _ _ rfl
      simp only [Packet.completes, hid, Option.map_some, true_and, Option.some.injEq, decide_eq_false_iff_not] at hother
      exact ⟨Ne.symm hother, hunfinished⟩

theorem TracksIDs.exchanged (hb : TracksIDs target b) (exchanges : List (Exchange × (Label → Choice))) :
    TracksIDs target (exchanged target exchanges b) := by
  induction exchanges generalizing b with
  | nil => exact hb
  | cons e rest ih =>
    apply ih
    obtain ⟨exchange, oracle⟩ := e
    cases exchange with
    | send conn topic payload qos dup => exact hb.send conn topic payload qos dup
    | pubrec index payload => exact hb.pubrec index payload
    | pubcomp index payload => exact hb.pubcomp index payload

structure Unused (target : Nat) (b : Broker) : Prop where
  ids : (b.client target).qos2Out = ∅
  history : ∀ pid, ¬ Unfinished target b.history pid

theorem Unused.tracksIDs (hb : Unused target b) : TracksIDs target b := by
  intro pid
  simp [hb.ids, hb.history pid]

/-- After any exchanges with a subscriber there is an id for the next message, and one that no
unfinished message of QoS 2 uses, exactly if not every id from 1 to 65535 is in use. -/
theorem nextOutPacketID_free_iff (hb : Unused target b) (exchanges : List (Exchange × (Label → Choice))) (conn : Nat) :
    (∃ pid, ((nextOutPacketID conn target).run.eval oracle (exchanged target exchanges b)).2 = .ok pid ∧ pid ≠ 0 ∧
        ¬ Unfinished target (exchanged target exchanges b).history pid) ↔
      ∃ pid, 0 < pid ∧ pid < 2 ^ 16 ∧ ¬ Unfinished target (exchanged target exchanges b).history pid := by
  have hids := hb.tracksIDs.exchanged exchanges
  generalize exchanged target exchanges b = b' at hids ⊢
  rw [eval_nextOutPacketID]
  constructor
  · rintro ⟨pid, hpid, hpos, hfree⟩
    split at hpid
    · cases hpid
    · next found hfound =>
      cases hpid
      exact ⟨pid, Nat.pos_of_ne_zero hpos, (freeID_found hfound).2.1, hfree⟩
  · rintro ⟨pid, hpos, hlt, hfree⟩
    have hnot : (b'.client target).qos2Out.contains pid = false := by
      rw [← hids] at hfree
      exact Bool.eq_false_iff.mpr hfree
    obtain ⟨found, hfound⟩ := exists_freeID_iff.mpr ⟨pid, hpos, hlt, hnot⟩
    obtain ⟨hfoundpos, -, hfoundfree⟩ := freeID_found hfound
    refine ⟨found, ?_, hfoundpos.ne', ?_⟩
    · rw [hfound]
    · rw [← hids, hfoundfree]
      exact Bool.false_ne_true

theorem unused_empty : Unused 0 {} where
  ids := rfl
  history := fun _ => not_unfinished_nil

def unanswered (n : Nat) : Broker := exchanged 0 (List.replicate n (.send 0 "a" [] 2 false, fun _ => {})) {}

theorem unanswered_succ (n : Nat) :
    unanswered (n + 1) = ((sendPublish 0 0 "a" [] 2 false fun _ => []).run.eval (fun _ => {}) (unanswered n)).1 := by
  unfold unanswered exchanged
  rw [replicate_succ', foldl_append, foldl_cons, foldl_nil]
  simp only [Exchange.program, eval_run_discard]

theorem unanswered_ids (hn : n < 2 ^ 16) :
    ((unanswered n).client 0).closed = false ∧ ((unanswered n).client 0).nextOutID = n ∧
      ∀ id, ((unanswered n).client 0).qos2Out.contains id = true ↔ 0 < id ∧ id ≤ n := by
  induction n with
  | zero =>
    refine ⟨rfl, rfl, fun id => ?_⟩
    have hnone : ((unanswered 0).client 0).qos2Out = ∅ := rfl
    simp [hnone]
    omega
  | succ n ih =>
    obtain ⟨hopen, hlast, hbusy⟩ := ih (by omega)
    have hfree : freeID (fun id => ((unanswered n).client 0).qos2Out.contains id) (2 ^ 16)
        ((unanswered n).client 0).nextOutID = some (n + 1) := by
      have hnext : ((unanswered n).client 0).qos2Out.contains (n + 1) = false := by
        rw [Bool.eq_false_iff, Ne, hbusy]
        omega
      rw [hlast, ← bump_of_lt hn]
      apply freeID_bump
      rw [bump_of_lt hn]
      exact hnext
    have hclient : (unanswered (n + 1)).client 0 = { (unanswered n).client 0 with
        nextOutID := n + 1, qos2Out := ((unanswered n).client 0).qos2Out.insert (n + 1) .awaitPubrec } := by
      rw [unanswered_succ, eval_sendPublish_two, hfree]
      simp only [hopen, Bool.or_false, Bool.false_eq_true, if_false, observe_client, client_registerOut]
    rw [hclient]
    refine ⟨hopen, rfl, fun id => ?_⟩
    rw [contains_insert_iff, hbusy]
    omega

theorem unfinished_unanswered (hn : n < 2 ^ 16) (pid : Nat) :
    Unfinished 0 (unanswered n).history pid ↔ 0 < pid ∧ pid ≤ n := by
  have hids : TracksIDs 0 (unanswered n) := unused_empty.tracksIDs.exchanged _
  rw [← hids]
  exact (unanswered_ids hn).2.2 pid

/-- One message is on its way, and there is an id for the next. -/
theorem nextOutPacketID_free_unanswered :
    ∃ pid, ((nextOutPacketID 0 0).run.eval (fun _ => {}) (unanswered 1)).2 = .ok pid ∧ pid ≠ 0 ∧
      ¬ Unfinished 0 (unanswered 1).history pid := by
  apply (nextOutPacketID_free_iff unused_empty (List.replicate 1 (.send 0 "a" [] 2 false, fun _ => {})) 0).mpr
  refine ⟨2, by decide, by decide, fun h => ?_⟩
  have hle := ((unfinished_unanswered (by decide) 2).mp h).2
  omega

/-- With all of them on their way the search does not end. -/
theorem nextOutPacketID_halted_unanswered :
    Unused 0 {} ∧ ((nextOutPacketID 0 0).run.eval (fun _ => {}) (unanswered 65535)).2 = .error .halted := by
  refine ⟨unused_empty, ?_⟩
  have hn : 65535 < 2 ^ 16 := by decide
  rw [eval_nextOutPacketID]
  split
  · rfl
  · next found hfound =>
    obtain ⟨hpos, hlt, hfree⟩ := freeID_found hfound
    have hbusy := ((unanswered_ids hn).2.2 found).mpr ⟨hpos, by omega⟩
    rw [hfree] at hbusy
    cases hbusy

end

end Nodra.Mqtt
