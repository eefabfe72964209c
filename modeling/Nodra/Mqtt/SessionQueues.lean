import Nodra.Mqtt.QueueContract

/-! Queued messages of persistent sessions, over restarts: if no message is queued while a
connection still replays older ones of the session, and no session is opened while it is being
discarded, then a message leaves its queue only after it was written. -/
namespace Nodra.Mqtt
open Lines Router Std Interleave Program List OrderedMap

variable {cfg : Config} {b b' : Broker} {conn i : Nat} {α : Type}

section

variable {clientID : String}

structure Deed (conn : Nat) (b b' : Broker) : Prop where
  keyed : Keyed b'
  confined : Confined conn b b'
  history : ∃ os, b'.history = b.history ++ os ∧ (∀ j entry, .queued j entry ∉ os) ∧
    ∀ j < b.nextSession, ∀ entries, .opened j entries ∉ os

theorem keepsQueue_deed {f : Choice → Broker → Broker × Except Exit α} {point : Point} {post : α → Broker → Prop}
    (hconn : conn ∈ b.known)
    (h : ∀ b', Rest conn b b' → Keyed b' → ∀ choice, OrderlyQueues { conn, point } b' → Deed conn b' (f choice b').1 ∧
      ∀ value, (f choice b').2 = .ok value → post value (f choice b').1) :
    KeepsQueue post (act conn f point) b := by
  apply KeepsOk.access
  intro b' hrest hinv choice horderly
  obtain ⟨hdeed, hpost⟩ := h b' hrest hinv.1 choice horderly
  obtain ⟨os, hhistory, hqueued, hopened⟩ := hdeed.history
  refine ⟨⟨hdeed.keyed, ?_⟩, ⟨hdeed.confined.known, fun other hne => ?_⟩, hpost⟩
  · exact hdeed.confined.marked hinv.2 (hdeed.confined.known conn (hrest.known conn hconn))
  · refine Still.rest (hdeed.confined.still hinv.1 hhistory (hdeed.confined.mark_ne hhistory hne) hopened
      (hdeed.confined.session_eq hne)) fun j entry hmem => ?_
    rw [hhistory] at hmem
    exact (mem_append.mp hmem).resolve_right (hqueued j entry)

structure Before (conn : Nat) (b : Broker) : Prop where
  known : conn ∈ b.known
  session : (b.client conn).session = none
  clean : ∀ o ∈ b.history, o.mark ≠ some conn

structure Connected (conn : Nat) (b : Broker) : Prop where
  known : conn ∈ b.known
  written : ∀ i, (b.client conn).session = some i → i < b.nextSession ∧ AllWritten b i

theorem Before.still (h : Before conn b) (hstill : Still conn b b') : Before conn b' where
  known := hstill.known conn h.known
  session := hstill.session.trans h.session
  clean := fun o ho hmark => h.clean o (hstill.own hmark ho) hmark

theorem Connected.still (h : Connected conn b) (hstill : Still conn b b') : Connected conn b' where
  known := hstill.known conn h.known
  written := by
    intro i hi
    obtain ⟨hlt, hwritten⟩ := h.written i (hstill.session ▸ hi)
    exact ⟨hlt.trans_le hstill.nextSession, hwritten.still hlt hstill⟩

structure Sessionless (conn : Nat) (b : Broker) : Prop where
  known : conn ∈ b.known
  session : (b.client conn).session = none

theorem Before.sessionless (h : Before conn b) : Sessionless conn b := ⟨h.known, h.session⟩

theorem Sessionless.still (h : Sessionless conn b) (hstill : Still conn b b') : Sessionless conn b' :=
  ⟨hstill.known conn h.known, hstill.session.trans h.session⟩

theorem Sessionless.connected (h : Sessionless conn b) : Connected conn b where
  known := h.known
  written := by
    intro i hi
    rw [h.session] at hi
    cases hi

structure Underway (conn : Nat) (clientID : String) (found : Option Nat) (b : Broker) : Prop where
  known : conn ∈ b.known
  session : (b.client conn).session = none
  discarding : Discarding b.history conn clientID found
  only : ∀ found', .discarding conn clientID found' ∈ b.history → found' = found
  found : ∀ i ∈ found, i < b.nextSession ∧ (b.session i).clientID = clientID

variable {found : Option Nat} {entry : Queued}

theorem Underway.still (h : Underway conn clientID found b) (hstill : Still conn b b') :
    Underway conn clientID found b' where
  known := hstill.known conn h.known
  session := hstill.session.trans h.session
  discarding := by
    obtain ⟨os, hhistory, hos⟩ := hstill.history
    rw [hhistory]
    refine h.discarding.append fun o ho => ⟨(hos o ho).1, ?_⟩
    rintro rfl
    exact (hos _ ho).2 rfl
  only := fun found' hmem => h.only found' (hstill.own rfl hmem)
  found := by
    intro i hi
    obtain ⟨hlt, howner⟩ := h.found i hi
    exact ⟨hlt.trans_le hstill.nextSession, (hstill.clientID i hlt).trans howner⟩

theorem keepsQueue_forget (hb : Before conn b) :
    KeepsQueue (fun found b' => Underway conn clientID found b') (act conn fun _ b =>
      ({ b with sessions := b.sessions.remove clientID }.observe
          [.discarding conn clientID (b.sessions.get? clientID)],
        .ok (b.sessions.get? clientID))) b := by
  refine keepsQueue_deed hb.known fun b' hrest hkeyed _ _ => ?_
  have hbefore := hb.still hrest.toStill
  have hnew : .discarded conn clientID ∉ recent b'.history := fun hmem =>
    hbefore.clean _ (mem_of_mem_recent hmem) rfl
  refine ⟨⟨hkeyed.forget hnew, confined_of_discard (.forget b'), _, rfl, by simp, by simp⟩, ?_⟩
  rintro _ ⟨⟩
  refine ⟨hbefore.known, hbefore.session, ?_, ?_, ?_⟩
  · rw [Discarding, observe_history, recent_append (by simp)]
    exact ⟨by simp, fun hmem => hnew (by simpa using hmem)⟩
  · intro found' hmem
    rcases mem_append.mp hmem with hold | hlast
    · exact absurd rfl (hbefore.clean _ hold)
    · simpa using hlast
  · intro i hi
    have hcurrent := (hkeyed.housed clientID).current i hi
    exact ⟨hcurrent.lt, hcurrent.owner⟩

theorem keepsQueue_closeSession (hb : Underway conn clientID (some i) b) :
    KeepsQueue (fun _ b' => Underway conn clientID (some i) b' ∧ (b'.session i).closed = true)
      (update conn fun b => b.setSession i fun s => { s with closed := true }) b := by
  refine keepsQueue_deed hb.known fun b' hrest hkeyed _ _ => ?_
  have hunderway := hb.still hrest.toStill
  obtain ⟨hlt, rfl⟩ := hunderway.found i rfl
  have hstep : Confined conn b' (b'.setSession i fun s => { s with closed := true }) :=
    confined_setSession (fun _ => rfl) fun _ _ => rfl
  refine ⟨⟨hkeyed.close hunderway.discarding, hstep, [], by simp, nofun, nofun⟩, fun _ _ => ⟨?_, ?_⟩⟩
  · exact hunderway.still (hstep.still hkeyed (append_nil _).symm nofun (fun _ _ _ => nofun) rfl)
  · rw [session_setSession, if_pos rfl]

theorem keepsQueue_delete (hb : Underway conn clientID found b)
    (hfound : ∀ i ∈ found, (b.session i).closed = true) :
    KeepsQueue (fun _ b' => Sessionless conn b') (act conn fun choice b =>
      ((if choice.fails then b else { b with dirs := Function.update b.dirs clientID none }).observe
        [.discarded conn clientID], .ok ())) b := by
  refine keepsQueue_deed hb.known fun b' hrest hkeyed choice _ => ?_
  have hunderway := hb.still hrest.toStill
  have hclosed (j : Nat) (hmem : .discarding conn clientID (some j) ∈ recent b'.history) :
      (b'.session j).closed = true := by
    have hj := (hunderway.only (some j) (mem_of_mem_recent hmem)).symm
    exact hrest.closed j (hb.found j hj).1 (hfound j hj)
  have hsessionless {dirs : String → Option Dir} :
      Sessionless conn ({ b' with dirs }.observe [.discarded conn clientID]) := ⟨hunderway.known, hunderway.session⟩
  dsimp only
  split
  · refine ⟨⟨hkeyed.delete hunderway.discarding hclosed (.inl rfl), ?_, _, rfl, by simp, by simp⟩,
      fun _ _ => hsessionless⟩
    exact confined_of_discard (.delete b' b' (.inl rfl))
  · refine ⟨⟨hkeyed.delete hunderway.discarding hclosed (.inr rfl), ?_, _, rfl, by simp, by simp⟩,
      fun _ _ => hsessionless⟩
    exact confined_of_discard (.delete b' _ (.inr rfl))

theorem keepsQueue_discardSession (hb : Before conn b) :
    KeepsQueue (fun _ b' => Sessionless conn b') (discardSession conn clientID) b := by
  refine .bind (keepsQueue_forget hb) fun found b₁ h₁ => ?_
  have hclose : KeepsQueue (fun _ b' => Underway conn clientID found b' ∧ ∀ i ∈ found, (b'.session i).closed = true)
      (found.forM fun i => update conn fun b => b.setSession i fun s => { s with closed := true }) b₁ := by
    cases found with
    | none => exact .pure ⟨h₁, nofun⟩
    | some i =>
      refine (keepsQueue_closeSession h₁).mono fun _ b₂ h₂ => ⟨h₂.1, ?_⟩
      rintro _ ⟨⟩
      exact h₂.2
  exact .bind hclose fun _ b₂ h₂ => keepsQueue_delete h₂.1 h₂.2

structure Joined (conn i : Nat) (b : Broker) : Prop where
  known : conn ∈ b.known
  session : (b.client conn).session = some i
  lt : i < b.nextSession
  clean : ∀ o ∈ b.history, o.mark ≠ some conn

theorem Joined.still (h : Joined conn i b) (hstill : Still conn b b') : Joined conn i b' where
  known := hstill.known conn h.known
  session := hstill.session.trans h.session
  lt := h.lt.trans_le hstill.nextSession
  clean := fun o ho hmark => h.clean o (hstill.own hmark ho) hmark

theorem keepsQueue_resumeSession (hb : Before conn b) :
    KeepsQueue (fun result b' => Before conn b' ∧ result.1 < b'.nextSession) (resumeSession conn clientID) b := by
  refine keepsQueue_deed hb.known fun b' hrest hkeyed choice horderly => ?_
  have hbefore := hb.still hrest.toStill
  have hdeed {b'' : Broker} (h : Plain conn b' b'') : Deed conn b' b'' := by
    obtain ⟨os, hneutral, hos⟩ := h.neutral
    exact ⟨h.keyed hkeyed, h.confined, os, hneutral.history, fun j entry hmem => (hos _ hmem).1,
      fun j _ entries hmem => (hos _ hmem).1⟩
  split
  · next i hget =>
    have hplain : Plain conn b' (b'.observe [.joining conn i]) :=
      plain_observe (by simp [Observation.author, Observation.neutral, Observation.mark])
    refine ⟨hdeed hplain, ?_⟩
    rintro _ ⟨⟩
    exact ⟨hbefore.still (hplain.rest hkeyed rfl).toStill, ((hkeyed.housed clientID).current i hget).lt⟩
  · next hget =>
    split
    · exact ⟨hdeed (plain_of_idle (.none b')).1, (by simp)⟩
    have hcalm (conn' : Nat) (found : Option Nat) : ¬Discarding b'.history conn' clientID found := by
      rintro ⟨hmem, hnot⟩
      have hfinished : (Observation.discarding conn' clientID found).Finished (recent b'.history) clientID :=
        horderly hget _ hmem
      exact hnot (hfinished rfl)
    have hstep : Confined conn b' _ := confined_of_join (.opened b' hget)
    refine ⟨⟨hkeyed.newSession hget hcalm rfl, hstep, _, rfl, by simp, ?_⟩, ?_⟩
    · intro j hj entries hmem
      obtain ⟨rfl, -⟩ : j = b'.nextSession ∧ _ := by simpa using hmem
      exact absurd hj (Nat.lt_irrefl _)
    rintro _ ⟨⟩
    refine ⟨⟨hstep.known conn hbefore.known, hbefore.session, ?_⟩, Nat.lt_succ_self _⟩
    intro o ho
    rcases mem_append.mp ho with hold | hnew
    · exact hbefore.clean o hold
    · rcases mem_cons.mp hnew with rfl | hnew
      · rintro ⟨⟩
      · cases mem_singleton.mp hnew
        rintro ⟨⟩

theorem keepsQueue_setSession (hb : Before conn b) (hi : i < b.nextSession) :
    KeepsQueue (fun _ b' => Joined conn i b')
      (update conn fun b => b.setClient conn fun cl => { cl with session := some i }) b := by
  refine keepsQueue_plain fun b' hrest _ _ => ?_
  have hbefore := hb.still hrest.toStill
  have hstep : Confined conn b' (b'.setClient conn fun cl => { cl with session := some i }) := confined_setOwn
  refine ⟨.of_client hstep rfl rfl rfl rfl (append_nil _).symm nofun, fun _ _ => ?_⟩
  refine ⟨hbefore.known, ?_, hi.trans_le hrest.nextSession, hbefore.clean⟩
  dsimp only
  rw [client_setClient, if_pos rfl]

theorem keepsQueue_takeOver (hb : Before conn b) :
    KeepsQueue (fun _ b' => ∃ i, Joined conn i b') (takeOver conn clientID) b := by
  refine .bind (keepsQueue_resumeSession hb) fun result b₁ ⟨h₁, hlt⟩ => ?_
  refine .bind (keepsQueue_setSession h₁ hlt) fun _ b₂ h₂ => ?_
  have hattach : KeepsQueue (fun _ b' => Joined conn result.1 b')
      (update conn fun b => b.setSession result.1 fun s => { s with live := some conn }) b₂ := by
    refine keepsQueue_plain fun b' hrest hkeyed _ => ?_
    have hplain : Plain conn b' (b'.setSession result.1 fun s => { s with live := some conn }) := by
      refine ⟨confined_setSession (fun _ => rfl) fun _ h => h, [], ⟨by simp, rfl, rfl, rfl, fun j => ?_⟩, nofun⟩
      rw [session_setSession]
      split
      · next heq => rw [heq]
      · rfl
    exact ⟨hplain, fun _ _ => (h₂.still hrest.toStill).still (hplain.rest hkeyed rfl).toStill⟩
  have hrestore (b₃ : Broker) (h₃ : Joined conn result.1 b₃) : KeepsQueue (fun _ b' => Joined conn result.1 b')
      (update conn fun b =>
        (b.setClient conn fun cl => { cl with subs := (b.session result.1).subs }).observe [.joined conn result.1]) b₃ := by
    refine keepsQueue_plain fun b' hrest hkeyed _ => ?_
    have hplain : Plain conn b'
        ((b'.setClient conn fun cl => { cl with subs := (b'.session result.1).subs }).observe [.joined conn result.1]) :=
      .of_client (Confined.observe confined_setOwn (by simp [Observation.author])) rfl rfl rfl rfl rfl
        (by simp [Observation.neutral, Observation.mark])
    refine ⟨hplain, fun _ _ => (h₃.still hrest.toStill).still (hplain.rest hkeyed ?_).toStill⟩
    rw [observe_client, client_setClient, if_pos rfl]
  exact .bind hattach fun _ b₃ h₃ => .bind (hrestore b₃ h₃) fun _ b₄ h₄ => .pure ⟨result.1, h₄⟩

structure Replaying (conn i : Nat) (left : List Queued) (b : Broker) : Prop where
  known : conn ∈ b.known
  session : (b.client conn).session = some i
  lt : i < b.nextSession
  stays : .leaving conn ∉ b.history
  listed : ∃ entries, .listed conn i entries ∈ b.history ∧ ∀ entry ∈ left, entry ∈ entries
  nodup : left.Nodup
  deleted : ∀ entry ∈ left, .deleted conn i entry ∉ b.history
  /-- What came before the session has its key for itself. -/
  source : ∀ entry ∈ left, .queued i entry ∈ b.history ∨ Inherited b.history i entry ∧
    ∀ entry', .queued i entry' ∈ b.history → entry'.msg.id ≠ entry.msg.id
  written : ∀ entry, Inherited b.history i entry → entry ∈ left ∨ Written b (b.session i).clientID entry

theorem Replaying.rest {left : List Queued} (h : Replaying conn i left b) (hrest : Rest conn b b') :
    Replaying conn i left b' where
  known := hrest.known conn h.known
  session := hrest.session.trans h.session
  lt := h.lt.trans_le hrest.nextSession
  stays := fun hmem => h.stays (hrest.own rfl hmem)
  listed := by
    obtain ⟨entries, hlisted, hleft⟩ := h.listed
    exact ⟨entries, hrest.later hlisted, hleft⟩
  nodup := h.nodup
  deleted := fun entry hentry hmem => h.deleted entry hentry (hrest.own rfl hmem)
  source := by
    intro entry hentry
    by_cases hqueued : .queued i entry ∈ b.history
    · exact .inl (hrest.later hqueued)
    -- as long as the message is before the connection, nothing is queued
    obtain ⟨entries, hlisted, hleft⟩ := h.listed
    have hholding : Holding b.history conn i :=
      ⟨h.stays, entries, entry, hlisted, hleft entry hentry, hqueued, h.deleted entry hentry⟩
    obtain ⟨⟨all, hopened, hmem⟩, hkey⟩ := (h.source entry hentry).resolve_left hqueued
    exact .inr ⟨⟨all, hrest.later hopened, hmem⟩, fun entry' hentry' => hkey entry' (hrest.held i hholding entry' hentry')⟩
  written := by
    intro entry hentry
    rw [hrest.clientID i h.lt]
    exact (h.written entry (hrest.inherited i h.lt entry hentry)).imp_right (hrest.written _ entry)

theorem Joined.replaying (h : Joined conn i b) (hb : Keyed b) :
    Replaying conn i (b.session i).items.values (b.observe [.listed conn i (b.session i).items.values]) where
  known := h.known
  session := h.session
  lt := h.lt
  stays := fun hmem => h.clean (.leaving conn) (by simpa using hmem) rfl
  listed := ⟨_, mem_append_right _ (mem_singleton.mpr rfl), fun _ h => h⟩
  nodup := nodup_values_of_keyed (hb.filed i).items
  deleted := fun entry _ hmem => h.clean (.deleted conn i entry) (by simpa using hmem) rfl
  source := by
    intro entry hentry
    obtain ⟨key, hget⟩ := exists_get?_of_mem_values hentry
    have hkey := (hb.filed i).items key entry hget
    by_cases hqueued : .queued i entry ∈ b.history
    · exact .inl (mem_append_left _ hqueued)
    refine .inr ⟨((hb.filed i).source key entry hget).resolve_left hqueued |>.append _, fun entry' hentry' hid => ?_⟩
    have hold : .queued i entry' ∈ b.history := by simpa using hentry'
    rw [← hkey, ← hid] at hget
    exact hqueued ((hb.filed i).own entry' hold entry hget ▸ hold)
  written := by
    intro entry hentry
    have hinherited : Inherited b.history i entry := hentry.of_append (by simp)
    rcases (hb.filed i).inherits entry hinherited with ⟨writer, j, pid, hmem, howner⟩ | hget
    · exact .inr ⟨writer, j, pid, mem_append_left _ hmem, howner⟩
    · exact .inl (mem_values_of_get? hget)

theorem Replaying.delete {left : List Queued} (h : Replaying conn i (entry :: left) b)
    (hwritten : Written b (b.session i).clientID entry) (hb : Keyed b) (hstep : Confined conn b b')
    (hhistory : b'.history = b.history ++ [.deleted conn i entry])
    (hsession : (b'.client conn).session = (b.client conn).session) : Replaying conn i left b' where
  known := hstep.known conn h.known
  session := hsession.trans h.session
  lt := h.lt.trans_le hstep.nextSession
  stays := by
    rw [hhistory]
    simpa using h.stays
  listed := by
    obtain ⟨entries, hlisted, hleft⟩ := h.listed
    exact ⟨entries, hhistory ▸ mem_append_left _ hlisted, fun e he => hleft e (mem_cons_of_mem entry he)⟩
  nodup := h.nodup.of_cons
  deleted := by
    intro e he hmem
    rw [hhistory] at hmem
    rcases mem_append.mp hmem with hold | hnew
    · exact h.deleted e (mem_cons_of_mem entry he) hold
    · obtain rfl : e = entry := by simpa using hnew
      exact h.nodup.notMem he
  source := by
    intro e he
    rw [hhistory]
    refine (h.source e (mem_cons_of_mem entry he)).imp (mem_append_left _) fun hold => ⟨hold.1.append _, ?_⟩
    intro e' he'
    exact hold.2 e' (by simpa using he')
  written := by
    intro e he
    rw [hhistory] at he
    rw [hstep.clientID i h.lt]
    rcases h.written e (he.of_append (by simp)) with hmem | hdone
    · rcases mem_cons.mp hmem with rfl | hmem
      · exact .inr (hwritten.later hb.numbered hstep.onward)
      · exact .inl hmem
    · exact .inr (hdone.later hb.numbered hstep.onward)

theorem Replaying.replaces {left : List Queued} (h : Replaying conn i (entry :: left) b)
    (hwritten : Written b (b.session i).clientID entry) (hb : Keyed b) (hopened : (b.session i).closed = false) :
    Replaces b i entry.msg.id none [.deleted conn i entry] fun items => items.remove entry.msg.id where
  lt := h.lt
  opened := hopened
  get := fun items id => get?_remove ..
  gone := by
    intro old hget
    have hid := (hb.filed i).items _ old hget
    have heq : old = entry := by
      rcases h.source entry mem_cons_self with hqueued | ⟨hinherited, hkey⟩
      · exact (hb.filed i).own entry hqueued old hget
      · rcases (hb.filed i).source _ old hget with hold | hold
        · exact absurd hid (hkey old hold)
        · exact (hb.filed i).inherited old entry hold hinherited hid
    exact heq ▸ hwritten
  number := nofun
  queued := by simp
  rest := by simp [Observation.session?]

theorem keepsQueue_deleteEntry {left : List Queued} (h : Replaying conn i (entry :: left) b)
    (hwritten : Written b (b.session i).clientID entry) :
    KeepsQueue (fun _ b' => Replaying conn i left b')
      (changeQueue conn i (fun items => items.remove entry.msg.id) (.delete i) fun _ => [.deleted conn i entry]) b := by
  refine keepsQueue_deed h.known fun b' hrest hkeyed choice _ => ?_
  have hreplaying := h.rest hrest
  have hwritten' : Written b' (b'.session i).clientID entry := by
    rw [hrest.clientID i h.lt]
    exact hrest.written _ entry hwritten
  dsimp only
  split
  · have hstep : Confined conn b' (b'.observe [.deleted conn i entry]) :=
      (Confined.refl conn b').observe (by simp [Observation.author])
    have hneutral : Neutral b' (b'.observe [.deleted conn i entry]) [.deleted conn i entry] :=
      ⟨rfl, rfl, rfl, rfl, fun _ => rfl⟩
    refine ⟨⟨hkeyed.neutral hneutral (by simp [Observation.neutral]), hstep, _, rfl, by simp, by simp⟩, fun _ _ => ?_⟩
    exact hreplaying.delete hwritten' hkeyed hstep rfl rfl
  next hok =>
  have hopened : (b'.session i).closed = false := by simp_all
  have hstep : Confined conn b' ((b'.changeQueue i fun items => items.remove entry.msg.id).observe
      [.deleted conn i entry]) := confined_of_replay (.remove b' entry hopened)
  refine ⟨⟨hkeyed.replace (hreplaying.replaces hwritten' hkeyed hopened), hstep, _, rfl, by simp, by simp⟩, fun _ _ => ?_⟩
  exact hreplaying.delete hwritten' hkeyed hstep rfl rfl

theorem keepsQueue_replayMessage {left : List Queued} (h : Replaying conn i (entry :: left) b) :
    KeepsQueue (fun _ b' => Replaying conn i left b') (replayMessage conn i entry) b := by
  have hsend : KeepsQueue (fun ok b' =>
      (ok = true → Replaying conn i (entry :: left) b' ∧ Written b' (b'.session i).clientID entry) ∧
        (ok = false → Replaying conn i (entry :: left) b'))
      (sendPublish conn conn entry.msg.topic entry.msg.payload entry.msg.qos (entry.msg.qos > 0)
        fun pid => [.replayed conn i pid entry]) b := by
    refine sendPublish_rule (fun b hp hb => ?_) (fun pid b hb => ?_) h
    · exact (keepsQueue_of_steps hp fun _ _ => plain_of_idle).mono fun _ _ hrest => hb.rest hrest
    refine keepsQueue_plain fun b' hrest hkeyed choice => ?_
    have hreplaying := hb.rest hrest
    split
    · refine ⟨(plain_of_idle (.none b')).1, ?_⟩
      rintro _ ⟨⟩
      exact ⟨(by simp), fun _ => hreplaying⟩
    · have hplain : Plain conn b' (b'.observe [.wrote conn (.publish entry.msg.topic entry.msg.payload entry.msg.qos
          (entry.msg.qos > 0) pid), .replayed conn i pid entry]) :=
        plain_observe (by simp [Observation.author, Observation.neutral, Observation.mark, hreplaying.lt])
      refine ⟨hplain, ?_⟩
      rintro _ ⟨⟩
      refine ⟨fun _ => ⟨hreplaying.rest (hplain.rest hkeyed rfl), conn, i, pid, by simp, rfl⟩, (by simp)⟩
  refine .bind hsend fun ok b₁ h₁ => .ite (fun hok => ?_) fun _ => .throw
  exact keepsQueue_deleteEntry (h₁.1 hok).1 (h₁.1 hok).2

theorem keepsQueue_replay (h : Joined conn i b) : KeepsQueue (fun _ b' => Connected conn b') (replay conn i) b := by
  have hlist : KeepsQueue (fun entries b' => Replaying conn i entries b') (act conn fun _ b =>
      (b.observe [.listed conn i (b.session i).items.values], .ok (b.session i).items.values)) b := by
    refine keepsQueue_plain fun b' hrest hkeyed _ => ⟨?_, ?_⟩
    · exact plain_observe (by simp [Observation.author, Observation.neutral, Observation.mark])
    · rintro _ ⟨⟩
      exact (h.still hrest.toStill).replaying hkeyed
  refine .bind hlist fun entries b₁ h₁ => ?_
  have hloop : KeepsQueue (fun _ b' => Replaying conn i [] b') (entries.forM (replayMessage conn i)) b₁ :=
    .forM_rest (fun _ _ _ => keepsQueue_replayMessage) h₁
  refine hloop.mono fun _ b₂ h₂ => ⟨h₂.known, fun j hj => ?_⟩
  cases h₂.session.symm.trans hj
  exact ⟨h₂.lt, fun entry hentry => (h₂.written entry hentry).resolve_left (by simp)⟩

theorem keepsQueue_openSession {info : ConnectInfo} (hb : Before conn b) :
    KeepsQueue (fun _ b' => Sessionless conn b' ∨ ∃ i, Joined conn i b') (openSession cfg conn info) b := by
  refine .ite (fun _ => .pure (.inl hb.sessionless)) fun _ => .ite (fun _ => ?_) fun _ => ?_
  · exact .bind (keepsQueue_discardSession hb) fun _ _ h₁ => .pure (.inl h₁)
  · exact (keepsQueue_takeOver hb).mono fun _ _ h₁ => .inr h₁

theorem keepsQueue_onConnect {payload : Bytes} (hb : Before conn b) :
    KeepsQueue (fun _ b' => Connected conn b') (onConnect cfg conn payload) b := by
  unfold onConnect
  split
  · exact .throw
  next info _ =>
  refine .bind (keepsQueue_of_steps steps_requireAuth fun _ _ => plain_of_idle) fun _ b₁ h₁ => ?_
  have husername : KeepsQueue (fun _ b' => Rest conn b₁ b')
      (update conn fun b => b.setClient conn fun cl => { cl with username := some info.username }) b₁ := by
    refine keepsQueue_of_steps (steps_update fun b => ?_) fun _ _ h => h
    have hstep : Confined conn b (b.setClient conn fun cl => { cl with username := some info.username }) :=
      confined_setOwn
    refine ⟨.of_client hstep rfl rfl rfl rfl (append_nil _).symm nofun, ?_⟩
    rw [client_setClient, if_pos rfl]
  refine .bind husername fun _ b₂ h₂ => ?_
  refine .bind (keepsQueue_openSession (hb.still (h₁.trans h₂).toStill)) fun present b₃ h₃ => ?_
  refine .bind (keepsQueue_of_steps (steps_answer rfl) fun _ _ => plain_of_idle) fun _ b₄ h₄ => ?_
  refine .bind keepsQueue_look fun session b₅ ⟨h₅, _, hsession⟩ => ?_
  have h := (h₄.trans h₅).toStill
  rcases h₃ with h₃ | ⟨i, h₃⟩
  · have hsessionless := h₃.still h
    rw [hsessionless.session] at hsession
    rw [hsession]
    exact .pure hsessionless.connected
  · have hjoined := h₃.still h
    rw [hjoined.session] at hsession
    rw [hsession]
    exact keepsQueue_replay hjoined

end

theorem keepsQueue_setSubs {all : List Subscription} (hb : Connected conn b) (hi : (b.client conn).session = some i) :
    KeepsQueue (fun _ b' => Connected conn b')
      (update conn fun b => (b.setSession i fun s => { s with subs := all }).observe [.granted i all]) b := by
  refine keepsQueue_deed hb.known fun b' hrest hkeyed _ _ => ?_
  have hconnected := hb.still hrest.toStill
  obtain ⟨hlt, hwritten⟩ := hconnected.written i (hrest.session.trans hi)
  have hstep : Confined conn b' ((b'.setSession i fun s => { s with subs := all }).observe [.granted i all]) :=
    confined_of_subscribe (.setSubs b' i all)
  refine ⟨⟨hkeyed.setSubs all hwritten, hstep, _, rfl, by simp, by simp⟩, fun _ _ => ?_⟩
  exact hconnected.still (hstep.still hkeyed rfl (by simp [Observation.mark]) (by simp) rfl)

theorem keepsQueue_onSubscribe {payload : Bytes} (hb : Connected conn b) :
    KeepsQueue (fun _ b' => Connected conn b') (onSubscribe cfg conn payload) b := by
  unfold onSubscribe
  split
  · exact .throw
  refine .bind keepsQueue_look fun username b₁ ⟨h₁, _⟩ => ?_
  have hgrant (granted : List Subscription) : KeepsQueue (fun _ b' => Rest conn b₁ b') (act conn fun _ b =>
      (b.setClient conn fun cl => { cl with subs := cl.subs ++ granted },
        .ok ((b.client conn).subs ++ granted))) b₁ := by
    refine keepsQueue_of_steps (steps_act fun _ b => ?_) fun _ _ h => h
    have hstep : Confined conn b (b.setClient conn fun cl => { cl with subs := cl.subs ++ granted }) :=
      confined_setOwn
    refine ⟨.of_client hstep rfl rfl rfl rfl (append_nil _).symm nofun, ?_⟩
    rw [client_setClient, if_pos rfl]
  refine .bind (hgrant _) fun all b₂ h₂ => .bind keepsQueue_look fun session b₃ ⟨h₃, _, hsession⟩ => ?_
  have hconnected := hb.still ((h₁.trans h₂).trans h₃).toStill
  have hanswer {reply : Reply} (h : reply.isAck = false) (b₄ : Broker) (h₄ : Connected conn b₄) :
      KeepsQueue (fun _ b' => Connected conn b') (answer conn reply []) b₄ :=
    (keepsQueue_of_steps (steps_answer h) fun _ _ => plain_of_idle).mono fun _ _ h₅ => h₄.still h₅.toStill
  refine .bind (.forM_option (fun i hi => keepsQueue_setSubs hconnected ?_) hconnected) fun _ => hanswer rfl
  exact hsession ▸ hi

theorem keepsQueue_close (hb : conn ∈ b.known) : KeepsQueue (fun _ _ => True) (close conn) b := by
  have hleave : KeepsQueue (fun _ _ => True) (update conn (fun b =>
      (b.setClient conn fun cl => { cl with closed := true }).observe [.leaving conn]) .leave) b := by
    refine keepsQueue_deed hb fun b' _ hkeyed _ _ => ⟨⟨?_, confined_of_close (.leave b'), _, rfl, by simp, by simp⟩,
      fun _ _ => trivial⟩
    have hneutral : Neutral b' ((b'.setClient conn fun cl => { cl with closed := true }).observe [.leaving conn])
        [.leaving conn] := ⟨rfl, rfl, rfl, rfl, fun _ => rfl⟩
    exact hkeyed.neutral hneutral (by simp [Observation.neutral])
  refine .bind hleave fun _ b₁ _ => ?_
  have herase : KeepsQueue (fun _ _ => True) (update conn fun b => { b with clients := b.clients.erase conn }) b₁ := by
    refine keepsQueue_plain fun b' _ _ _ => ⟨?_, fun _ _ => trivial⟩
    exact .of_client (confined_of_close (.erase b')) rfl rfl rfl rfl (append_nil _).symm (by simp)
  refine .bind herase fun _ b₂ _ => .bind keepsQueue_look fun session b₃ _ => ?_
  refine .forM_option (fun i _ => keepsQueue_plain fun b' _ _ _ => ⟨?_, fun _ _ => trivial⟩) trivial
  refine ⟨confined_of_close (.detach b' i), [.left conn i], ⟨rfl, rfl, rfl, rfl, fun j => ?_⟩,
    by simp [Observation.neutral, Observation.mark]⟩
  dsimp only
  rw [observe_session, session_setSession]
  split
  · next heq =>
    subst heq
    split <;> rfl
  · rfl

theorem keepsQueue_accept : KeepsQueue (fun _ b' => Before conn b') (accept conn cfg) b := by
  apply KeepsOk.access
  intro b' hrest hinv choice _
  have hplain {b'' : Broker} (h : Confined conn b' b'') (hsessions : b''.sessions = b'.sessions)
      (hnext : b''.nextSession = b'.nextSession) (hdirs : b''.dirs = b'.dirs) (hsession : b''.session = b'.session)
      (hhistory : b''.history = b'.history) : Plain conn b' b'' :=
    .of_client h hsessions hnext hdirs hsession (hhistory.trans (append_nil _).symm) nofun
  dsimp only
  split
  · have hnone : Plain conn b' b' := (plain_of_idle (.none b')).1
    exact ⟨hinv, hnone.guar hinv.1, nofun⟩
  next hnew =>
  have hregister := hplain (confined_of_accept (.refuse b' hnew)) rfl rfl rfl rfl rfl
  split
  · exact ⟨⟨hregister.keyed hinv.1, hregister.marked hinv.2⟩, hregister.guar hinv.1, nofun⟩
  have haccept := hplain (confined_of_accept (.register b' hnew)) rfl rfl rfl rfl rfl
  refine ⟨⟨haccept.keyed hinv.1, haccept.marked hinv.2⟩, haccept.guar hinv.1, fun _ _ => ?_⟩
  refine ⟨mem_cons_self, ?_, fun o ho hmark => hnew (hinv.2 o ho conn hmark)⟩
  change ((b'.register conn).client conn).session = none
  rw [Broker.register, client_setClient, if_pos rfl]

theorem serves_queues (conn : Nat) : ServesCalls cfg conn queueContract
    (fun connected _ => if connected then Connected conn else Before conn) (fun _ => True)
    (fun b => conn ∈ b.known) where
  accept := fun _ => keepsQueue_accept
  read := by
    intro connected index packet b hb
    have hread : KeepsQueue (fun _ b' => Rest conn b b')
        (update conn (fun b => b.observe [.read conn index packet]) (.read packet)) b :=
      keepsQueue_of_steps (steps_update fun b => ⟨plain_observe (by simp [Observation.author, Observation.neutral,
        Observation.mark]), rfl⟩) fun _ _ h => h
    refine hread.mono fun _ b' hrest => ⟨?_, trivial⟩
    cases connected with
    | true => exact Connected.still hb hrest.toStill
    | false => exact Before.still hb hrest.toStill
  aside := by
    intro α p connected index b hp hb
    refine (keepsQueue_of_steps hp fun _ _ => plain_of_aside).mono fun _ b' hrest => ?_
    cases connected with
    | true => exact Connected.still hb hrest.toStill
    | false => exact Before.still hb hrest.toStill
  connect := fun _ _ _ hb _ _ => keepsQueue_onConnect hb
  publish := fun _ _ _ hb => keepsQueue_publish.mono fun _ _ hstill => Connected.still hb hstill
  subscribe := fun _ _ _ hb => keepsQueue_onSubscribe hb
  turn := fun _ _ _ hb => hb
  close := fun _ => keepsQueue_close
  after_ready := by
    intro connected index b hb
    cases connected with
    | true => exact Connected.known hb
    | false => exact Before.known hb
  after_rely := fun _ _ _ hrest hknown => hrest.known conn hknown
  after_guar := fun _ _ _ _ hguar hknown => hguar.1 conn hknown

theorem keepsQueue_publishCall {msg : Message} : KeepsQueue (fun _ _ => True) (publishCall cfg conn msg) b := by
  have hreserve : KeepsQueue (fun _ _ => True) (reserve conn) b := by
    refine keepsQueue_plain fun b' _ _ _ => ?_
    split
    · exact ⟨(plain_of_idle (.none b')).1, fun _ _ => trivial⟩
    · next hnew =>
      refine ⟨.of_client (confined_of_accept (.reserve b' hnew)) rfl rfl rfl rfl (append_nil _).symm nofun, ?_⟩
      exact fun _ _ => trivial
  exact .bind hreserve fun _ _ _ => keepsQueue_publish.mono fun _ _ _ => trivial

def orderlySystem (cfg : Config) : System Broker (Program Label Broker Choice (Except Exit Unit)) Choice :=
  brokerSystem cfg fun label _ b => OrderlyQueues label b

theorem queueContract_fits : queueContract.Fits (orderlySystem cfg) where
  next := rfl
  refl := fun label => Rest.refl label.conn
  trans := fun _ _ _ _ => Rest.trans
  others := fun _ _ label _ _ _ hallowed _ hguar u hu label' hlabel' =>
    hguar.2 label'.conn ((hallowed label rfl).2 u hu label' hlabel')
  starts := by
    rintro b t _ ⟨conn, ⟨stream, rfl⟩ | ⟨msg, rfl⟩⟩
    · exact Keeps.mono ((serves_queues conn).serves.serve stream b) fun _ _ _ => trivial
    · exact Keeps.mono keepsQueue_publishCall fun _ _ _ => trivial
  enabled := fun _ _ label _ _ _ hallowed => (hallowed label rfl).1

/-- A step of the broker, or a restart: all threads end, and memory is lost. -/
inductive RestartStep (sys : System Broker (Program Label Broker Choice (Except Exit Unit)) Choice) :
    Interleave.Config Broker (Program Label Broker Choice (Except Exit Unit)) →
      Interleave.Config Broker (Program Label Broker Choice (Except Exit Unit)) → Prop where
  | step {c c' : Interleave.Config Broker (Program Label Broker Choice (Except Exit Unit))} (h : sys.Step c c') :
      RestartStep sys c c'
  | restart (c : Interleave.Config Broker (Program Label Broker Choice (Except Exit Unit))) :
      RestartStep sys c ⟨c.shared.restart, 0⟩

theorem Marked.restart (hb : Marked b) : Marked b.restart := by
  intro o ho
  rcases mem_append.mp ho with hold | hnew
  · exact hb o hold
  · cases mem_singleton.mp hnew
    exact nofun

/-- In a run with restarts no queued message is destroyed by another. -/
theorem queue_kept_of_run {c : Interleave.Config Broker (Program Label Broker Choice (Except Exit Unit))}
    (hrun : Relation.ReflTransGen (RestartStep (orderlySystem cfg)) ⟨{}, 0⟩ c) : QueueKept c.shared := by
  have hmeets : c.Meets queueContract.inv fun b t => t.Keeps queueContract (fun _ _ => True) b := by
    induction hrun with
    | refl => exact ⟨⟨keyed_empty, nofun⟩, nofun⟩
    | tail _ hstep ih =>
      cases hstep with
      | step h => exact queueContract_fits.outline.step h ih
      | restart => exact ⟨⟨ih.1.1.restart, ih.1.2.restart⟩, nofun⟩
  exact hmeets.1.1.queueKept

def playTwice (first second : List (Scene Job Choice)) : Broker × List (Program Label Broker Choice (Except Exit Unit)) :=
  play (Job.thread {}) second (play (Job.thread {}) first {}).1.restart

theorem run_playTwice {enabled : Label → Choice → Broker → Prop} (first second : List (Scene Job Choice))
    (hfirst : Follows enabled (fun label label' => label.conn ≠ label'.conn) ({}, [])
      (first.flatMap (Scene.moves (Job.thread {}))))
    (hsecond : Follows enabled (fun label label' => label.conn ≠ label'.conn)
      ((play (Job.thread {}) first {}).1.restart, []) (second.flatMap (Scene.moves (Job.thread {})))) :
    Relation.ReflTransGen (RestartStep (brokerSystem {} enabled)) ⟨{}, 0⟩
      ⟨(playTwice first second).1, (playTwice first second).2⟩ := by
  have hstep {c c' : Interleave.Config Broker (Program Label Broker Choice (Except Exit Unit))}
      (h : (brokerSystem {} enabled).Run c c') : Relation.ReflTransGen (RestartStep (brokerSystem {} enabled)) c c' :=
    Relation.ReflTransGen.lift id (fun _ _ => RestartStep.step) _ _ h
  refine Relation.ReflTransGen.trans (hstep (run_brokerScript {} first {} hfirst)) ?_
  exact Relation.ReflTransGen.head (.restart _) (hstep (run_brokerScript {} second _ hsecond))

def pumpConnect : Bytes := connectOf "pump" "op" false

def pumpSubscribe : Bytes := packetOf 0x82 ([0, 1] ++ appendString "line/1" ++ [1])

def lineMessage (text : String) : Message where
  topic := "line/1"
  payload := ascii text
  qos := 1

/-- The first message of a session, for the subscription of the pump. -/
def lineEntry (text : String) (conn : Nat) : Queued where
  msg := { id := "m1", topic := "line/1", payload := ascii text, qos := 1 }
  filter := "line/1"
  call := ⟨conn, 0⟩

def awayScript : List (Scene Job Choice) :=
  [.start (.connection 0 (pumpConnect ++ pumpSubscribe)), .turn 0 40 {},
    .start (.call 1 (lineMessage "one")), .turn 0 40 {}]

/-- After the restart it comes back, subscribes and leaves again before the next message. -/
def backScript : List (Scene Job Choice) :=
  [.start (.connection 2 (pumpConnect ++ pumpSubscribe)), .turn 0 40 {},
    .start (.call 3 (lineMessage "two")), .turn 0 40 {}]

theorem queue_kept_pump :
    .queued 0 (lineEntry "one" 1) ∈ (playTwice awayScript backScript).1.history ∧
      .queued 1 (lineEntry "two" 3) ∈ (playTwice awayScript backScript).1.history ∧
      QueueKept (playTwice awayScript backScript).1 := by
  have hrun : Relation.ReflTransGen (RestartStep (orderlySystem {})) ⟨{}, 0⟩ _ :=
    run_playTwice awayScript backScript (by decide +kernel) (by decide +kernel)
  exact ⟨by decide +kernel, by decide +kernel, by simpa only using queue_kept_of_run hrun⟩

/-- One connection stands between its list and its first write, while another one replays the
session, subscribes and leaves; the next message gets the key of the first. -/
def staleScript : List (Scene Job Choice) :=
  [.start (.connection 2 pumpConnect), .turn 0 10 {},
    .start (.connection 3 (pumpConnect ++ pumpSubscribe)), .turn 0 24 {},
    .start (.call 4 (lineMessage "two")), .turn 0 10 {}, .turn 0 40 {}]

def Observation.isDiscarding : Observation → Bool
  | .discarding _ _ _ => true
  | _ => false

def Observation.writes (entry : Queued) : Observation → Bool
  | .replayed _ _ _ entry' => entry' = entry
  | _ => false

/-- The message is deleted under the key of another one, and was never written. -/
theorem queued_destroyed :
    ∃ c, Relation.ReflTransGen (RestartStep (brokerSystem {} fun _ _ _ => True)) ⟨{}, 0⟩ c ∧
      .queued 1 (lineEntry "two" 4) ∈ c.shared.history ∧ (c.shared.session 1).clientID = "pump" ∧
      (∀ o ∈ c.shared.history, o.isDiscarding = false ∧ o.writes (lineEntry "two" 4) = false) ∧
      (c.shared.dirs "pump").map (fun dir => dir.items.values) = some [] ∧ ¬QueueKept c.shared := by
  have hrun : Relation.ReflTransGen (RestartStep (brokerSystem {} fun _ _ _ => True)) ⟨{}, 0⟩ _ :=
    run_playTwice awayScript staleScript (by decide +kernel) (by decide +kernel)
  have hqueued : .queued 1 (lineEntry "two" 4) ∈ (playTwice awayScript staleScript).1.history := by decide +kernel
  have howner : ((playTwice awayScript staleScript).1.session 1).clientID = "pump" := by decide +kernel
  have hnever : ∀ o ∈ (playTwice awayScript staleScript).1.history,
      o.isDiscarding = false ∧ o.writes (lineEntry "two" 4) = false := by decide +kernel
  have hempty : ((playTwice awayScript staleScript).1.dirs "pump").map (fun dir => dir.items.values) = some [] := by
    decide +kernel
  refine ⟨_, hrun, ?_⟩
  dsimp only
  refine ⟨hqueued, howner, hnever, hempty, fun hkept => ?_⟩
  rcases hkept 1 _ hqueued with hdiscarded | ⟨conn, i, pid, hmem, -⟩ | ⟨⟨dir, hdir, hget⟩, -⟩
  · have hgone : ∃ conn found, .discarding conn ((playTwice awayScript staleScript).1.session 1).clientID found ∈
        (playTwice awayScript staleScript).1.history := by
      rcases hdiscarded with ⟨conn, hmem⟩ | ⟨before, after, conn, found, heq, -, hmem⟩
      · exact ⟨conn, _, hmem⟩
      · exact ⟨conn, found, heq ▸ mem_append_right before hmem⟩
    obtain ⟨conn, found, hmem⟩ := hgone
    exact absurd (hnever _ hmem).1 nofun
  · exact absurd (hnever _ hmem).2 (by simp [Observation.writes])
  · rw [howner] at hdir
    rw [hdir] at hempty
    have hvalues : dir.items.values = [] := by simpa using hempty
    have hmem := mem_values_of_get? hget
    rw [hvalues] at hmem
    cases hmem

end Nodra.Mqtt
