import Nodra.Mqtt.Broker

/-! What a client reads of the answers that are written to it. -/
namespace Nodra.Mqtt
open Lines Interleave Program List

theorem toNat_byte (n : Nat) : (byte n).toNat = n % 256 := by
  simp [byte]

theorem readRemaining_length {fuel n mul m : Nat} {bytes rest : Bytes}
    (h : readRemaining fuel n mul bytes = some (m, rest)) : rest.length < bytes.length := by
  induction fuel generalizing n mul bytes with
  | zero => cases h
  | succ fuel ih =>
    cases bytes with
    | nil => cases h
    | cons b bytes =>
      simp only [readRemaining] at h
      split at h
      · cases h
        exact Nat.lt_succ_self _
      · exact (ih h).trans (Nat.lt_succ_self _)

/-- A packet whose length is written in one byte is read back if the byte is the length, and below 128. -/
theorem readPacket_short_iff (header : UInt8) (length : Nat) (payload tail : Bytes) :
    readPacket ([header, byte length] ++ payload ++ tail) =
        some ({ typ := header.toNat / 16, flags := header.toNat % 16, payload }, tail) ↔
      length % 256 = payload.length ∧ payload.length < 128 := by
  have hbyte := toNat_byte length
  simp only [cons_append, nil_append, readPacket, readRemaining]
  by_cases hshort : (byte length).toNat < 128
  · rw [if_pos hshort]
    have hn : 0 + (byte length).toNat % 128 * 1 = length % 256 := by omega
    simp only [hn]
    constructor
    · intro h
      split at h
      · cases h
      · next hfits =>
        simp only [Option.some.injEq, Prod.mk.injEq, Packet.mk.injEq, true_and] at h
        have htaken := congrArg List.length h.1
        simp only [length_take] at htaken
        omega
    · rintro ⟨hlength, -⟩
      have hmax : maxPacket = 2 ^ 24 := rfl
      rw [if_neg (by simp only [length_append]; omega), hlength]
      simp
  · rw [if_neg hshort]
    constructor
    · intro h
      -- another byte goes to the length, and the payload would reach into what follows
      split at h
      · cases h
      · next n rest hread =>
        have hrest := readRemaining_length hread
        split at h
        · cases h
        · next hfits =>
          simp only [Option.some.injEq, Prod.mk.injEq, Packet.mk.injEq, true_and] at h
          have htaken := congrArg List.length h.1
          have hdropped := congrArg List.length h.2
          simp only [length_take, length_drop, length_append] at htaken hdropped hrest
          omega
    · omega

section

variable {enabled : Label → Choice → Broker → Prop} {conn : Nat} {b : Broker}

theorem finishes_look {α : Type} {f : Broker → α} {post : α → Broker → Prop} (h : post (f b) b) :
    Finishes enabled post (look conn f) b :=
  .access fun _ _ => ⟨_, rfl, h⟩

theorem finishes_update {f : Broker → Broker} {point : Point} {post : Unit → Broker → Prop} (h : post () (f b)) :
    Finishes enabled post (update conn f point) b :=
  .access fun _ _ => ⟨_, rfl, h⟩

def Writable (conn : Nat) (label : Label) (choice : Choice) : Prop :=
  ∀ reply, label = ⟨conn, .write conn reply⟩ → choice.fails = false

theorem finishes_answer {reply : Reply} {meaning : List Observation} {post : Unit → Broker → Prop}
    (hwrite : ∀ label choice b, enabled label choice b → Writable conn label choice)
    (hopen : (b.client conn).closed = false) (h : post () (b.observe (.wrote conn reply :: meaning))) :
    Finishes enabled post (answer conn reply meaning) b := by
  have hdone : Finishes enabled (fun ok b' => ok = true ∧ post () b') (write conn conn reply meaning) b := by
    refine .access fun choice henabled => ?_
    have hfails := hwrite _ _ _ henabled reply rfl
    simpa [hfails, hopen] using h
  refine .bind hdone fun ok b' hok => ?_
  rw [hok.1]
  exact .pure hok.2

end

section

def written (conn : Nat) (os : List Observation) : Bytes :=
  os.flatMap fun
    | .wrote target reply => if target = conn then reply.encode else []
    | _ => []

def returnCodes (cfg : Config) (username : String) (subs : List Subscription) : List Nat :=
  subs.map fun sub => if permit cfg username sub.filter false then sub.qos else 0x80

variable (cfg : Config) (conn : Nat) {payload : Bytes} {pid : Nat} {subs : List Subscription} (b : Broker)

@[simp] theorem length_returnCodes (username : String) : (returnCodes cfg username subs).length = subs.length := by
  simp [returnCodes]

theorem readPacket_suback_iff (codes : List Nat) (tail : Bytes) :
    readPacket ((Reply.suback pid codes).encode ++ tail) =
        some ({ typ := 9, flags := 0, payload := bytes16 pid ++ codes.map byte }, tail) ↔
      codes.length ≤ 125 := by
  have h := readPacket_short_iff 0x90 (2 + codes.length) (bytes16 pid ++ codes.map byte) tail
  have hlength : (bytes16 pid ++ codes.map byte).length = 2 + codes.length := by
    simp [bytes16]
    omega
  rw [hlength] at h
  simp only [Reply.encode, append_assoc] at h ⊢
  exact h.trans (by omega)

theorem finishes_onSubscribe {enabled : Label → Choice → Broker → Prop}
    (hwrite : ∀ label choice b, enabled label choice b → Writable conn label choice)
    (hparse : parseSubscribe payload = some (pid, subs)) (hopen : (b.client conn).closed = false) :
    Finishes enabled (fun _ b' => written conn (b'.history.drop b.history.length) =
        (Reply.suback pid (returnCodes cfg ((b.client conn).username.getD "") subs)).encode)
      (onSubscribe cfg conn payload) b := by
  -- up to the answer the connection is left open, and nothing is written to it
  let waits : Broker → Prop := fun b' =>
    (b'.client conn).closed = false ∧ ∃ os, b'.history = b.history ++ os ∧ written conn os = []
  have hname : Finishes enabled (fun name b' => name = (b.client conn).username.getD "" ∧ b = b')
      (username conn) b := finishes_look ⟨rfl, rfl⟩
  have hgrant : ∀ granted, Finishes enabled (fun _ => waits)
      (act conn fun _ b => (b.setClient conn fun cl => { cl with subs := cl.subs ++ granted },
        .ok ((b.client conn).subs ++ granted))) b := by
    intro granted
    refine .access fun _ _ => ⟨_, rfl, ?_, [], by simp [Broker.setClient], rfl⟩
    simpa [Broker.setClient] using hopen
  have hsession : ∀ all b', waits b' → ∀ session : Option Nat, Finishes enabled (fun _ => waits)
      (session.forM fun i =>
        update conn fun b => (b.setSession i fun s => { s with subs := all }).observe [.granted i all]) b' := by
    rintro all b' ⟨hopen', os, hos, hnone⟩ (_ | i)
    · exact .pure ⟨hopen', os, hos, hnone⟩
    · refine finishes_update ⟨hopen', os ++ [.granted i all], ?_, ?_⟩
      · simp [Broker.observe, Broker.setSession, hos]
      · simp [written, flatMap_append] at hnone ⊢
        exact hnone
  unfold onSubscribe
  rw [hparse]
  refine .bind hname ?_
  rintro _ _ ⟨rfl, rfl⟩
  refine .bind (hgrant _) fun all b₁ h₁ => ?_
  have hlook : Finishes enabled (fun _ => waits) (look conn fun b => (b.client conn).session) b₁ := finishes_look h₁
  refine .bind hlook fun session b₂ h₂ => ?_
  refine .bind (hsession all b₂ h₂ session) fun _ b₃ h₃ => ?_
  obtain ⟨hopen', os, hos, hnone⟩ := h₃
  apply finishes_answer hwrite hopen'
  have hdrop : (b₃.observe [.wrote conn (.suback pid (returnCodes cfg ((b.client conn).username.getD "") subs))]).history.drop
      b.history.length = os ++ [.wrote conn (.suback pid (returnCodes cfg ((b.client conn).username.getD "") subs))] := by
    simp [Broker.observe, hos]
  refine (congrArg (written conn) hdrop).trans ?_
  unfold written at hnone ⊢
  rw [flatMap_append, hnone]
  simp

variable {b} {oracle : Label → Choice}

theorem written_onSubscribe (hparse : parseSubscribe payload = some (pid, subs))
    (hopen : (b.client conn).closed = false)
    (hwrite : ∀ reply, (oracle ⟨conn, .write conn reply⟩).fails = false) :
    written conn (((onSubscribe cfg conn payload).run.eval oracle b).1.history.drop b.history.length) =
      (Reply.suback pid (returnCodes cfg ((b.client conn).username.getD "") subs)).encode := by
  have henabled : ∀ label (_ : Broker), Writable conn label (oracle label) := by
    rintro _ _ reply rfl
    exact hwrite reply
  obtain ⟨_, -, hbytes⟩ := (finishes_onSubscribe cfg conn b (fun _ _ _ h => h) hparse hopen).eval oracle henabled
  exact hbytes

/-- The length of a SUBACK is written in one byte: the answer to a SUBSCRIBE is read back as the
packet it should be exactly if there are no more than 125 filters. -/
theorem readPacket_suback_of_subscribe_iff (hparse : parseSubscribe payload = some (pid, subs))
    (hopen : (b.client conn).closed = false)
    (hwrite : ∀ reply, (oracle ⟨conn, .write conn reply⟩).fails = false) (tail : Bytes) :
    readPacket (written conn (((onSubscribe cfg conn payload).run.eval oracle b).1.history.drop b.history.length) ++
          tail) =
        some ({ typ := 9, flags := 0, payload := bytes16 pid ++
          (returnCodes cfg ((b.client conn).username.getD "") subs).map byte }, tail) ↔
      subs.length ≤ 125 := by
  rw [written_onSubscribe cfg conn hparse hopen hwrite, readPacket_suback_iff, length_returnCodes]

/-- The SUBSCRIBE of a client for the topic `a`, any number of times. -/
def subscribeOften (n : Nat) : Bytes := [0, 1] ++ (List.replicate n [0, 1, 97, 0]).flatten

theorem readFilters_often (n fuel : Nat) (hfuel : n ≤ fuel) :
    readFilters fuel (List.replicate n [0, 1, 97, 0]).flatten = some (List.replicate n ⟨"a", 0⟩) := by
  induction n generalizing fuel with
  | zero => cases fuel <;> rfl
  | succ n ih =>
    obtain ⟨fuel, rfl⟩ : ∃ m, fuel = m + 1 := ⟨fuel - 1, by omega⟩
    have hrest := ih fuel (by omega)
    have hstring (rest : Bytes) : readString (0 :: 1 :: 97 :: 0 :: rest) = some ("a", 0 :: rest) := by
      simp [readString, uint16, ofBytes]
    simp only [replicate_succ, flatten_cons, cons_append, nil_append]
    rw [readFilters, hstring]
    · simp [hrest]
    · simp

theorem parseSubscribe_often {n : Nat} (hn : n ≠ 0) :
    parseSubscribe (subscribeOften n) = some (1, List.replicate n ⟨"a", 0⟩) := by
  have hread := readFilters_often n (n * 4) (by omega)
  simp [subscribeOften, parseSubscribe, readID, uint16, hread, hn]

/-- A SUBSCRIBE with 125 filters is still answered well. -/
theorem suback_wellFormed_often :
    readPacket (written 0 (((onSubscribe {} 0 (subscribeOften 125)).run.eval (fun _ => {}) {}).1.history.drop
          (Broker.history {}).length) ++ [0xd0, 0x00]) =
      some ({ typ := 9, flags := 0, payload := bytes16 1 ++
        (returnCodes {} ((Broker.client {} 0).username.getD "") (List.replicate 125 ⟨"a", 0⟩)).map byte },
        [0xd0, 0x00]) := by
  have hparse : parseSubscribe (subscribeOften 125) = some (1, List.replicate 125 ⟨"a", 0⟩) :=
    parseSubscribe_often (Nat.succ_ne_zero 124)
  rw [readPacket_suback_of_subscribe_iff {} 0 hparse rfl fun _ => rfl, length_replicate]

/-- With 126 filters it is not: the length of 128 looks like the first byte of a longer one. -/
theorem suback_malformed_often :
    parseSubscribe (subscribeOften 126) = some (1, List.replicate 126 ⟨"a", 0⟩) ∧
      ¬ ∀ tail, readPacket (written 0
          (((onSubscribe {} 0 (subscribeOften 126)).run.eval (fun _ => {}) {}).1.history.drop
            (Broker.history {}).length) ++ tail) =
        some ({ typ := 9, flags := 0, payload := bytes16 1 ++
          (returnCodes {} ((Broker.client {} 0).username.getD "") (List.replicate 126 ⟨"a", 0⟩)).map byte }, tail) := by
  have hparse : parseSubscribe (subscribeOften 126) = some (1, List.replicate 126 ⟨"a", 0⟩) :=
    parseSubscribe_often (Nat.succ_ne_zero 125)
  refine ⟨hparse, fun h => ?_⟩
  have hread := h []
  rw [written_onSubscribe {} 0 hparse rfl fun _ => rfl, readPacket_suback_iff, length_returnCodes,
    length_replicate] at hread
  omega

end

end Nodra.Mqtt
