import Nodra.Mqtt.Steps

/-! The queues of the persistent sessions and their keys.  The key of a message is a number that
its session counts, and the count begins again with every session: what is in the directory of a
session before it is opened may have the key of a message that comes later. -/
namespace Nodra.Mqtt
open Lines Router Std Interleave Program List

variable {b b' : Broker} {conn i : Nat} {clientID : String} {os : List Observation}

def recent (h : List Observation) : List Observation := (h.reverse.takeWhile (· ≠ .restarted)).reverse

theorem mem_of_mem_recent {h : List Observation} {o : Observation} (ho : o ∈ recent h) : o ∈ h := by
  rw [recent, mem_reverse] at ho
  exact mem_reverse.mp ((List.takeWhile_prefix _).subset ho)

theorem recent_append {h : List Observation} (hos : ∀ o ∈ os, o ≠ .restarted) :
    recent (h ++ os) = recent h ++ os := by
  rw [recent, reverse_append, takeWhile_append_of_pos, reverse_append, reverse_reverse, recent]
  intro o ho
  simpa using hos o (mem_reverse.mp ho)

theorem recent_restarted (h : List Observation) : recent (h ++ [.restarted]) = [] := by
  simp [recent]

def Observation.session? : Observation → Option Nat
  | .opened i _ | .reserved _ i _ | .queued i _ | .replayed _ i _ _ => some i
  | _ => none

def Inherited (h : List Observation) (i : Nat) (entry : Queued) : Prop :=
  ∃ entries, .opened i entries ∈ h ∧ entry ∈ entries

def Discarding (h : List Observation) (conn : Nat) (clientID : String) (found : Option Nat) : Prop :=
  .discarding conn clientID found ∈ recent h ∧ .discarded conn clientID ∉ recent h

def Discarded (h : List Observation) (clientID : String) (i : Nat) (entry : Queued) : Prop :=
  (∃ conn, .discarding conn clientID (some i) ∈ h) ∨
    ∃ before after conn found, h = before ++ after ∧ .queued i entry ∈ before ∧
      .discarding conn clientID found ∈ after

def Written (b : Broker) (clientID : String) (entry : Queued) : Prop :=
  ∃ conn i pid, .replayed conn i pid entry ∈ b.history ∧ (b.session i).clientID = clientID

def Stored (b : Broker) (clientID : String) (entry : Queued) : Prop :=
  (∃ dir, b.dirs clientID = some dir ∧ dir.items.get? entry.msg.id = some entry) ∧
    ∀ i, b.sessions.get? clientID = some i → (b.session i).items.get? entry.msg.id = some entry

/-- A message leaves its queue only after it was written, or with the session. -/
def QueueKept (b : Broker) : Prop :=
  ∀ i entry, .queued i entry ∈ b.history → Discarded b.history (b.session i).clientID i entry ∨
    Written b (b.session i).clientID entry ∨ Stored b (b.session i).clientID entry

section

structure Numbered (b : Broker) : Prop where
  fresh : ∀ o ∈ b.history, ∀ i ∈ o.session?, i < b.nextSession
  number : ∀ i entry, .queued i entry ∈ b.history →
    ∃ number, .reserved entry.call i number ∈ b.history ∧ entry.msg.id = "m" ++ toString number
  seq : ∀ call i number, .reserved call i number ∈ b.history → number ≤ (b.session i).seq
  unique : ∀ call call' i number, .reserved call i number ∈ b.history → .reserved call' i number ∈ b.history →
    call = call'

structure Filed (h : List Observation) (i : Nat) (s : PersistentSession) (written : Queued → Prop) : Prop where
  items : ∀ id entry, s.items.get? id = some entry → entry.msg.id = id
  source : ∀ id entry, s.items.get? id = some entry → .queued i entry ∈ h ∨ Inherited h i entry
  /-- Nothing but the message itself is found under the key of a message that was queued. -/
  own : ∀ entry, .queued i entry ∈ h → ∀ entry', s.items.get? entry.msg.id = some entry' → entry' = entry
  inherited : ∀ entry entry', Inherited h i entry → Inherited h i entry' → entry.msg.id = entry'.msg.id →
    entry = entry'
  queued : ∀ entry, .queued i entry ∈ h → written entry ∨ s.items.get? entry.msg.id = some entry
  inherits : ∀ entry, Inherited h i entry → written entry ∨ s.items.get? entry.msg.id = some entry
  /-- A session has filters only when all that it inherited is written. -/
  granted : s.subs ≠ [] → ∀ entry, Inherited h i entry → written entry

structure Current (b : Broker) (clientID : String) (i : Nat) : Prop where
  lt : i < b.nextSession
  owner : (b.session i).clientID = clientID
  opened : (b.session i).closed = false
  dir : ∃ dir, b.dirs clientID = some dir ∧ dir.inode = (b.session i).inode ∧ dir.items = (b.session i).items
  calm : ∀ conn found, ¬Discarding b.history conn clientID found

structure Housed (b : Broker) (clientID : String) : Prop where
  current : ∀ i, b.sessions.get? clientID = some i → Current b clientID i
  /-- A queue that is open but not of the current session is about to be closed. -/
  opened : ∀ i < b.nextSession, (b.session i).clientID = clientID → (b.session i).closed = false →
    b.sessions.get? clientID = some i ∨ ∃ conn, Discarding b.history conn clientID (some i)
  items : ∀ dir id entry, b.dirs clientID = some dir → dir.items.get? id = some entry → entry.msg.id = id
  /-- The session has the messages of the sessions before it. -/
  heirs : ∀ i, b.sessions.get? clientID = some i → ∀ j entry, .queued j entry ∈ b.history →
    (b.session j).clientID = clientID → Discarded b.history clientID j entry ∨ Written b clientID entry ∨
      j = i ∨ Inherited b.history i entry
  discards : ∀ conn found, Discarding b.history conn clientID found → ∀ i entry,
    .queued i entry ∈ b.history → (b.session i).clientID = clientID → Discarded b.history clientID i entry
  stored : b.sessions.get? clientID = none → ∀ i entry, .queued i entry ∈ b.history →
    (b.session i).clientID = clientID → Discarded b.history clientID i entry ∨ Written b clientID entry ∨
      ∃ dir, b.dirs clientID = some dir ∧ dir.items.get? entry.msg.id = some entry

structure Keyed (b : Broker) : Prop where
  numbered : Numbered b
  filed : ∀ i, Filed b.history i (b.session i) (Written b (b.session i).clientID)
  housed : ∀ clientID, Housed b clientID

theorem Keyed.queueKept (hb : Keyed b) : QueueKept b := by
  intro i entry hentry
  have hhoused := hb.housed (b.session i).clientID
  cases hsession : b.sessions.get? (b.session i).clientID with
  | none =>
    refine (hhoused.stored hsession i entry hentry rfl).imp_right (Or.imp_right fun hdir => ⟨hdir, ?_⟩)
    intro j hj
    rw [hsession] at hj
    cases hj
  | some j =>
    have hcurrent := hhoused.current j hsession
    obtain ⟨dir, hdir, -, hitems⟩ := hcurrent.dir
    have hstored (h : Written b (b.session j).clientID entry ∨ (b.session j).items.get? entry.msg.id = some entry) :
        Written b (b.session i).clientID entry ∨ Stored b (b.session i).clientID entry := by
      rw [hcurrent.owner] at h
      refine h.imp_right fun hget => ⟨⟨dir, hdir, hitems ▸ hget⟩, ?_⟩
      intro k hk
      rw [hsession] at hk
      cases hk
      exact hget
    rcases hhoused.heirs j hsession i entry hentry rfl with hgone | hwritten | rfl | hinherited
    · exact .inl hgone
    · exact .inr (.inl hwritten)
    · exact .inr (hstored ((hb.filed i).queued entry hentry))
    · exact .inr (hstored ((hb.filed j).inherits entry hinherited))

variable {h : List Observation} {entry : Queued} {found : Option Nat}

theorem Discarded.append (hgone : Discarded h clientID i entry)
    (os : List Observation) : Discarded (h ++ os) clientID i entry := by
  rcases hgone with ⟨conn, hmem⟩ | ⟨before, after, conn, found, rfl, hentry, hmem⟩
  · exact .inl ⟨conn, mem_append_left os hmem⟩
  · exact .inr ⟨before, after ++ os, conn, found, by simp, hentry, mem_append_left os hmem⟩

theorem Inherited.append (hinherited : Inherited h i entry)
    (os : List Observation) : Inherited (h ++ os) i entry := by
  obtain ⟨entries, hmem, hentry⟩ := hinherited
  exact ⟨entries, mem_append_left os hmem, hentry⟩

theorem Inherited.of_append (hinherited : Inherited (h ++ os) i entry)
    (hos : ∀ entries, .opened i entries ∉ os) : Inherited h i entry := by
  obtain ⟨entries, hmem, hentry⟩ := hinherited
  exact ⟨entries, (mem_append.mp hmem).resolve_right (hos entries), hentry⟩

theorem Discarding.of_append (hunderway : Discarding (h ++ os) conn clientID found)
    (hos : ∀ o ∈ os, o ≠ .restarted ∧ ∀ conn found, o ≠ .discarding conn clientID found) :
    Discarding h conn clientID found := by
  obtain ⟨hmem, hnot⟩ := hunderway
  rw [recent_append fun o ho => (hos o ho).1, mem_append] at hmem hnot
  refine ⟨hmem.resolve_right fun hnew => (hos _ hnew).2 conn found rfl, fun h => hnot (.inl h)⟩

theorem Discarding.append (hunderway : Discarding h conn clientID found)
    (hos : ∀ o ∈ os, o ≠ .restarted ∧ o ≠ .discarded conn clientID) : Discarding (h ++ os) conn clientID found := by
  rw [Discarding, recent_append fun o ho => (hos o ho).1]
  refine ⟨mem_append_left os hunderway.1, fun hmem => ?_⟩
  rcases mem_append.mp hmem with hold | hnew
  · exact hunderway.2 hold
  · exact (hos _ hnew).2 rfl

structure Onward (b b' : Broker) : Prop where
  history : ∃ os, b'.history = b.history ++ os
  nextSession : b.nextSession ≤ b'.nextSession
  clientID : ∀ i < b.nextSession, (b'.session i).clientID = (b.session i).clientID

theorem Confined.onward (h : Confined conn b b') : Onward b b' where
  history := h.history.imp fun _ => And.left
  nextSession := h.nextSession
  clientID := h.clientID

theorem Written.later (h : Written b clientID entry) (hb : Numbered b) (hstep : Onward b b') :
    Written b' clientID entry := by
  obtain ⟨writer, j, pid, hmem, howner⟩ := h
  obtain ⟨os, hhistory⟩ := hstep.history
  refine ⟨writer, j, pid, hhistory ▸ mem_append_left os hmem, ?_⟩
  rw [hstep.clientID j (hb.fresh _ hmem j rfl), howner]

end

theorem Numbered.transfer (hb : Numbered b) (hstep : Onward b b') (hhistory : b'.history = b.history ++ os)
    (hseq : ∀ j < b.nextSession, (b'.session j).seq = (b.session j).seq)
    (hos : ∀ o ∈ os, (∀ j entry, o ≠ .queued j entry) ∧ (∀ call j number, o ≠ .reserved call j number) ∧
      ∀ j ∈ o.session?, j < b'.nextSession) : Numbered b' := by
  have hreserved (call : Call) (j number : Nat) (hmem : .reserved call j number ∈ b'.history) :
      .reserved call j number ∈ b.history := by
    rw [hhistory] at hmem
    exact (mem_append.mp hmem).resolve_right fun hnew => (hos _ hnew).2.1 call j number rfl
  refine ⟨?_, ?_, ?_, ?_⟩
  · intro o ho j hj
    rw [hhistory] at ho
    rcases mem_append.mp ho with hold | hnew
    · exact Nat.lt_of_lt_of_le (hb.fresh o hold j hj) hstep.nextSession
    · exact (hos o hnew).2.2 j hj
  · intro j entry hmem
    rw [hhistory] at hmem ⊢
    have hold := (mem_append.mp hmem).resolve_right fun hnew => (hos _ hnew).1 j entry rfl
    obtain ⟨number, hnumber, hid⟩ := hb.number j entry hold
    exact ⟨number, mem_append_left os hnumber, hid⟩
  · intro call j number hmem
    have hold := hreserved call j number hmem
    rw [hseq j (hb.fresh _ hold j rfl)]
    exact hb.seq call j number hold
  · intro call call' j number hmem hmem'
    exact hb.unique call call' j number (hreserved call j number hmem) (hreserved call' j number hmem')

theorem Filed.transfer {h : List Observation} {s s' : PersistentSession} {written written' : Queued → Prop}
    (hb : Filed h i s written) (hitems : s'.items = s.items)
    (hgranted : s'.subs ≠ [] → ∀ entry, Inherited h i entry → written entry)
    (hwritten : ∀ entry, written entry → written' entry)
    (hos : ∀ o ∈ os, (∀ entry, o ≠ .queued i entry) ∧ ∀ entries, o ≠ .opened i entries) :
    Filed (h ++ os) i s' written' := by
  have hqueued (entry : Queued) (hmem : .queued i entry ∈ h ++ os) : .queued i entry ∈ h :=
    (mem_append.mp hmem).resolve_right fun hnew => (hos _ hnew).1 entry rfl
  have hinherited (entry : Queued) (hmem : Inherited (h ++ os) i entry) : Inherited h i entry :=
    hmem.of_append fun entries hnew => (hos _ hnew).2 entries rfl
  refine ⟨?_, ?_, ?_, ?_, ?_, ?_, ?_⟩
  · rw [hitems]
    exact hb.items
  · rw [hitems]
    intro id entry hget
    exact (hb.source id entry hget).imp (mem_append_left os) fun hold => hold.append os
  · rw [hitems]
    exact fun entry hmem => hb.own entry (hqueued entry hmem)
  · intro entry entry' hmem hmem'
    exact hb.inherited entry entry' (hinherited entry hmem) (hinherited entry' hmem')
  · rw [hitems]
    exact fun entry hmem => (hb.queued entry (hqueued entry hmem)).imp_left (hwritten entry)
  · rw [hitems]
    exact fun entry hmem => (hb.inherits entry (hinherited entry hmem)).imp_left (hwritten entry)
  · exact fun hsome entry hmem => hwritten entry (hgranted hsome entry (hinherited entry hmem))

structure Aloof (b b' : Broker) (os : List Observation) (clientID : String) : Prop where
  history : b'.history = b.history ++ os
  get : b'.sessions.get? clientID = b.sessions.get? clientID
  dir : b'.dirs clientID = b.dirs clientID
  sessions : ∀ j < b'.nextSession, (b'.session j).clientID = clientID → j < b.nextSession ∧
    (b'.session j).closed = (b.session j).closed ∧ (b'.session j).inode = (b.session j).inode ∧
      (b'.session j).items = (b.session j).items
  discards : ∀ o ∈ os, o ≠ .restarted ∧ (∀ conn found, o ≠ .discarding conn clientID found) ∧
    ∀ conn, o ≠ .discarded conn clientID
  queued : ∀ j entry, .queued j entry ∈ os → (b'.session j).clientID ≠ clientID
  opened : ∀ j entries, .opened j entries ∈ os → (b'.session j).clientID ≠ clientID

theorem Housed.transfer (hb : Housed b clientID) (hnumbered : Numbered b) (hstep : Onward b b')
    (h : Aloof b b' os clientID) : Housed b' clientID := by
  have hunderway (conn : Nat) (found : Option Nat) (hmem : Discarding b'.history conn clientID found) :
      Discarding b.history conn clientID found := by
    rw [h.history] at hmem
    exact hmem.of_append fun o ho => ⟨(h.discards o ho).1, (h.discards o ho).2.1⟩
  have hqueued (j : Nat) (entry : Queued) (hmem : .queued j entry ∈ b'.history)
      (howner : (b'.session j).clientID = clientID) :
      .queued j entry ∈ b.history ∧ (b.session j).clientID = clientID := by
    rw [h.history] at hmem
    have hold := (mem_append.mp hmem).resolve_right fun hnew => h.queued j entry hnew howner
    exact ⟨hold, hstep.clientID j (hnumbered.fresh _ hold j rfl) ▸ howner⟩
  have hlater (entry : Queued) (hwritten : Written b clientID entry) : Written b' clientID entry :=
    hwritten.later hnumbered hstep
  have hgone (j : Nat) (entry : Queued) (hmem : Discarded b.history clientID j entry) :
      Discarded b'.history clientID j entry := h.history ▸ hmem.append os
  refine ⟨?_, ?_, ?_, ?_, ?_, ?_⟩
  · intro i hget
    rw [h.get] at hget
    have hcurrent := hb.current i hget
    have howner : (b'.session i).clientID = clientID := (hstep.clientID i hcurrent.lt).trans hcurrent.owner
    have hlt : i < b'.nextSession := Nat.lt_of_lt_of_le hcurrent.lt hstep.nextSession
    obtain ⟨-, hclosed, hinode, hitems⟩ := h.sessions i hlt howner
    refine ⟨hlt, howner, hclosed.trans hcurrent.opened, ?_, ?_⟩
    · rw [h.dir, hinode, hitems]
      exact hcurrent.dir
    · exact fun conn found hmem => hcurrent.calm conn found (hunderway conn found hmem)
  · intro i hi howner hclosed
    obtain ⟨hlt, hsame, -, -⟩ := h.sessions i hi howner
    rw [h.get]
    have hold := hb.opened i hlt (hstep.clientID i hlt ▸ howner) (hsame ▸ hclosed)
    refine hold.imp_right fun ⟨conn, hmem⟩ => ⟨conn, ?_⟩
    rw [h.history]
    exact hmem.append fun o ho => ⟨(h.discards o ho).1, (h.discards o ho).2.2 conn⟩
  · rw [h.dir]
    exact hb.items
  · intro i hget j entry hmem howner
    rw [h.get] at hget
    obtain ⟨hold, howner'⟩ := hqueued j entry hmem howner
    rcases hb.heirs i hget j entry hold howner' with hdiscarded | hwritten | hsame | hinherited
    · exact .inl (hgone j entry hdiscarded)
    · exact .inr (.inl (hlater entry hwritten))
    · exact .inr (.inr (.inl hsame))
    · exact .inr (.inr (.inr (h.history ▸ hinherited.append os)))
  · intro conn found hmem j entry hentry howner
    obtain ⟨hold, howner'⟩ := hqueued j entry hentry howner
    exact hgone j entry (hb.discards conn found (hunderway conn found hmem) j entry hold howner')
  · intro hget j entry hmem howner
    rw [h.get] at hget
    rw [h.dir]
    obtain ⟨hold, howner'⟩ := hqueued j entry hmem howner
    exact (hb.stored hget j entry hold howner').imp (hgone j entry) (Or.imp_left (hlater entry))

structure Neutral (b b' : Broker) (os : List Observation) : Prop where
  history : b'.history = b.history ++ os
  sessions : b'.sessions = b.sessions
  nextSession : b'.nextSession = b.nextSession
  dirs : b'.dirs = b.dirs
  session : ∀ i, b'.session i = { b.session i with live := (b'.session i).live }

def Observation.neutral (b : Broker) : Observation → Prop
  | .opened _ _ | .reserved _ _ _ | .queued _ _ | .discarding _ _ _ | .discarded _ _ | .restarted => False
  | .replayed _ i _ _ => i < b.nextSession
  | _ => True

theorem Neutral.onward (h : Neutral b b' os) : Onward b b' where
  history := ⟨os, h.history⟩
  nextSession := h.nextSession.ge
  clientID := fun i _ => by rw [h.session i]

theorem Keyed.neutral (hb : Keyed b) (h : Neutral b b' os) (hos : ∀ o ∈ os, o.neutral b) : Keyed b' where
  numbered := by
    refine hb.numbered.transfer h.onward h.history (fun j _ => by rw [h.session j]) fun o ho => ?_
    have hneutral := hos o ho
    refine ⟨?_, ?_, ?_⟩
    · rintro j entry rfl
      exact hneutral
    · rintro call j number rfl
      exact hneutral
    · intro j hj
      rw [h.nextSession]
      cases o with
      | replayed conn i pid entry =>
        cases hj
        exact hneutral
      | opened i entries => exact hneutral.elim
      | reserved call i number => exact hneutral.elim
      | queued i entry => exact hneutral.elim
      | _ => cases hj
  filed := by
    intro i
    rw [h.history]
    have hsubs : (b'.session i).subs = (b.session i).subs := by rw [h.session i]
    refine (hb.filed i).transfer (by rw [h.session i]) (hsubs ▸ (hb.filed i).granted) (fun entry hwritten => ?_)
      fun o ho => ?_
    · have hlater := hwritten.later hb.numbered h.onward
      rw [h.session i]
      exact hlater
    · have hneutral := hos o ho
      refine ⟨?_, ?_⟩
      · rintro entry rfl
        exact hneutral
      · rintro entries rfl
        exact hneutral
  housed := by
    intro clientID
    refine (hb.housed clientID).transfer hb.numbered h.onward
      ⟨h.history, by rw [h.sessions], by rw [h.dirs], ?_, ?_, ?_, ?_⟩
    · intro j hj _
      rw [h.session j, ← h.nextSession]
      exact ⟨hj, rfl, rfl, rfl⟩
    · intro o ho
      have hneutral := hos o ho
      refine ⟨?_, ?_, ?_⟩
      · rintro rfl
        exact hneutral
      · rintro conn found rfl
        exact hneutral
      · rintro conn rfl
        exact hneutral
    · exact fun j entry hmem => (hos _ hmem).elim
    · exact fun j entries hmem => (hos _ hmem).elim

section

theorem key_injective {m n : Nat} (h : "m" ++ toString m = "m" ++ toString n) : m = n := by
  have hrepr : m.repr = n.repr := by simpa using h
  rw [Nat.repr_eq_ofList_toDigits, Nat.repr_eq_ofList_toDigits, String.ofList_inj] at hrepr
  calc
    m = Nat.ofDigitChars 10 (Nat.toDigits 10 m) 0 := (Nat.ofDigitChars_toDigits (by decide) (by decide)).symm
    _ = Nat.ofDigitChars 10 (Nat.toDigits 10 n) 0 := by rw [hrepr]
    _ = n := Nat.ofDigitChars_toDigits (by decide) (by decide)

variable {f : PersistentSession → PersistentSession}

theorem onward_setSession (hf : ∀ s, (f s).clientID = s.clientID) :
    Onward b ((b.setSession i f).observe os) where
  history := ⟨os, rfl⟩
  nextSession := le_rfl
  clientID := by
    intro j _
    rw [observe_session, session_setSession]
    split
    · next heq => rw [hf, heq]
    · rfl

theorem Keyed.housed_setSession (hb : Keyed b)
    (hf : ∀ s, (f s).clientID = s.clientID ∧ (f s).closed = s.closed ∧ (f s).inode = s.inode ∧ (f s).items = s.items)
    (hos : ∀ o ∈ os, o ≠ .restarted ∧ (∀ conn clientID found, o ≠ .discarding conn clientID found) ∧
      (∀ conn clientID, o ≠ .discarded conn clientID) ∧ (∀ j entry, o ≠ .queued j entry) ∧
      ∀ j entries, o ≠ .opened j entries)
    (clientID : String) : Housed ((b.setSession i f).observe os) clientID := by
  refine (hb.housed clientID).transfer hb.numbered (onward_setSession fun s => (hf s).1) ⟨rfl, rfl, rfl, ?_, ?_, ?_, ?_⟩
  · intro j hj _
    rw [observe_session, session_setSession]
    refine ⟨hj, ?_⟩
    split
    · next heq =>
      subst heq
      exact (hf _).2
    · exact ⟨rfl, rfl, rfl⟩
  · exact fun o ho => ⟨(hos o ho).1, fun conn found => (hos o ho).2.1 conn clientID found,
      fun conn => (hos o ho).2.2.1 conn clientID⟩
  · exact fun j entry hmem => absurd rfl ((hos _ hmem).2.2.2.1 j entry)
  · exact fun j entries hmem => absurd rfl ((hos _ hmem).2.2.2.2 j entries)

theorem Keyed.filed_setSession (hb : Keyed b) (hf : ∀ s, (f s).clientID = s.clientID ∧ (f s).items = s.items)
    (hgranted : (f (b.session i)).subs ≠ [] → ∀ entry, Inherited b.history i entry →
      Written b (b.session i).clientID entry)
    (hos : ∀ o ∈ os, (∀ j entry, o ≠ .queued j entry) ∧ ∀ j entries, o ≠ .opened j entries) (j : Nat) :
    Filed (b.history ++ os) j (((b.setSession i f).observe os).session j)
      (Written ((b.setSession i f).observe os) (((b.setSession i f).observe os).session j).clientID) := by
  have howner : (((b.setSession i f).observe os).session j).clientID = (b.session j).clientID := by
    rw [observe_session, session_setSession]
    split
    · next heq => rw [(hf _).1, heq]
    · rfl
  refine (hb.filed j).transfer ?_ ?_ ?_ fun o ho => ⟨(hos o ho).1 j, (hos o ho).2 j⟩
  · rw [observe_session, session_setSession]
    split
    · next heq => rw [(hf _).2, heq]
    · rfl
  · rw [observe_session, session_setSession]
    split
    · next heq =>
      subst heq
      exact hgranted
    · exact (hb.filed j).granted
  · intro entry hwritten
    rw [howner]
    exact hwritten.later hb.numbered (onward_setSession fun s => (hf s).1)

theorem Keyed.reserve (hb : Keyed b) (call : Call) (hi : i < b.nextSession) :
    Keyed ((b.setSession i fun s => { s with seq := s.seq + 1 }).observe
      [.reserved call i ((b.session i).seq + 1)]) := by
  have hmem (o : Observation) (ho : o ∈ b.history ++ [.reserved call i ((b.session i).seq + 1)]) :
      o ∈ b.history ∨ o = .reserved call i ((b.session i).seq + 1) := by simpa using ho
  refine ⟨⟨?_, ?_, ?_, ?_⟩, ?_, ?_⟩
  · intro o ho j hj
    rcases hmem o ho with hold | rfl
    · exact hb.numbered.fresh o hold j hj
    · cases hj
      exact hi
  · intro j entry ho
    obtain ⟨number, hnumber, hid⟩ := hb.numbered.number j entry ((hmem _ ho).resolve_right nofun)
    exact ⟨number, mem_append_left _ hnumber, hid⟩
  · intro call' j number ho
    rw [observe_session, session_setSession]
    rcases hmem _ ho with hold | hnew
    · have hseq := hb.numbered.seq call' j number hold
      split
      · next heq =>
        subst heq
        exact Nat.le_succ_of_le hseq
      · exact hseq
    · cases hnew
      rw [if_pos rfl]
  · intro call' call'' j number ho ho'
    rcases hmem _ ho with hold | hnew <;> rcases hmem _ ho' with hold' | hnew'
    · exact hb.numbered.unique call' call'' j number hold hold'
    · cases hnew'
      have hseq := hb.numbered.seq call' i _ hold
      omega
    · cases hnew
      have hseq := hb.numbered.seq call'' i _ hold'
      omega
    · cases hnew
      cases hnew'
      rfl
  · exact hb.filed_setSession (fun _ => ⟨rfl, rfl⟩) (hb.filed i).granted (by simp)
  · exact hb.housed_setSession (fun _ => ⟨rfl, rfl, rfl, rfl⟩) (by simp)

theorem Keyed.setSubs (hb : Keyed b) (all : List Subscription)
    (hwritten : ∀ entry, Inherited b.history i entry → Written b (b.session i).clientID entry) :
    Keyed ((b.setSession i fun s => { s with subs := all }).observe [.granted i all]) where
  numbered := by
    refine hb.numbered.transfer (onward_setSession fun _ => rfl) rfl (fun j _ => ?_) (by simp [Observation.session?])
    rw [observe_session, session_setSession]
    split
    · next heq => rw [heq]
    · rfl
  filed := hb.filed_setSession (fun _ => ⟨rfl, rfl⟩) (fun _ => hwritten) (by simp)
  housed := hb.housed_setSession (fun _ => ⟨rfl, rfl, rfl, rfl⟩) (by simp)

end

section

theorem session_changeQueue (b : Broker) (i : Nat) (f : OrderedMap String Queued → OrderedMap String Queued) (j : Nat) :
    (b.changeQueue i f).session j =
      if j = i then { b.session i with items := f (b.session i).items } else b.session j :=
  session_setSession b i (fun s => { s with items := f s.items }) j

structure Replaces (b : Broker) (i : Nat) (key : String) (result : Option Queued) (os : List Observation)
    (f : OrderedMap String Queued → OrderedMap String Queued) : Prop where
  lt : i < b.nextSession
  opened : (b.session i).closed = false
  get : ∀ items id, (f items).get? id = if id = key then result else items.get? id
  /-- What was there is written. -/
  gone : ∀ entry, (b.session i).items.get? key = some entry → Written b (b.session i).clientID entry
  number : ∀ entry ∈ result, entry.msg.id = key ∧ (∀ entry', .queued i entry' ∈ b.history → entry'.msg.id ≠ key) ∧
    ∃ number, .reserved entry.call i number ∈ b.history ∧ key = "m" ++ toString number
  queued : ∀ j entry, .queued j entry ∈ os ↔ j = i ∧ result = some entry
  rest : ∀ o ∈ os, o ≠ .restarted ∧ (∀ conn clientID found, o ≠ .discarding conn clientID found) ∧
    (∀ conn clientID, o ≠ .discarded conn clientID) ∧ (∀ j entries, o ≠ .opened j entries) ∧
    (∀ call j number, o ≠ .reserved call j number) ∧ ∀ j ∈ o.session?, j = i

variable {key : String} {result : Option Queued} {f : OrderedMap String Queued → OrderedMap String Queued}

theorem Replaces.onward (_ : Replaces b i key result os f) : Onward b ((b.changeQueue i f).observe os) where
  history := ⟨os, rfl⟩
  nextSession := le_rfl
  clientID := by
    intro j _
    rw [observe_session, session_changeQueue]
    split
    · next heq => rw [heq]
    · rfl

theorem Numbered.replace (hb : Numbered b) (h : Replaces b i key result os f) :
    Numbered ((b.changeQueue i f).observe os) := by
  have hreserved (call : Call) (j number : Nat) (hmem : .reserved call j number ∈ b.history ++ os) :
      .reserved call j number ∈ b.history :=
    (mem_append.mp hmem).resolve_right fun hnew => (h.rest _ hnew).2.2.2.2.1 call j number rfl
  refine ⟨?_, ?_, ?_, ?_⟩
  · intro o ho j hj
    rcases mem_append.mp ho with hold | hnew
    · exact hb.fresh o hold j hj
    · rw [(h.rest o hnew).2.2.2.2.2 j hj]
      exact h.lt
  · intro j entry hmem
    rcases mem_append.mp hmem with hold | hnew
    · obtain ⟨number, hnumber, hid⟩ := hb.number j entry hold
      exact ⟨number, mem_append_left os hnumber, hid⟩
    · obtain ⟨rfl, hresult⟩ := (h.queued j entry).mp hnew
      obtain ⟨hid, -, number, hnumber, hkey⟩ := h.number entry hresult
      exact ⟨number, mem_append_left os hnumber, hid.trans hkey⟩
  · intro call j number hmem
    have hseq := hb.seq call j number (hreserved call j number hmem)
    rw [observe_session, session_changeQueue]
    split
    · next heq =>
      subst heq
      exact hseq
    · exact hseq
  · intro call call' j number hmem hmem'
    exact hb.unique call call' j number (hreserved call j number hmem) (hreserved call' j number hmem')

theorem Filed.replace {written' : Queued → Prop}
    (hb : Filed b.history i (b.session i) (Written b (b.session i).clientID)) (h : Replaces b i key result os f)
    (hlater : ∀ entry, Written b (b.session i).clientID entry → written' entry) :
    Filed (b.history ++ os) i { b.session i with items := f (b.session i).items } written' := by
  have hqueued (entry : Queued) (hmem : .queued i entry ∈ b.history ++ os) :
      .queued i entry ∈ b.history ∨ result = some entry :=
    (mem_append.mp hmem).imp_right fun hnew => ((h.queued i entry).mp hnew).2
  have hinherited (entry : Queued) (hmem : Inherited (b.history ++ os) i entry) : Inherited b.history i entry :=
    hmem.of_append fun entries hnew => (h.rest _ hnew).2.2.2.1 i entries rfl
  -- a message that was there is there still, or was under the key
  have hkept (entry : Queued) (hold : Written b (b.session i).clientID entry ∨
      (b.session i).items.get? entry.msg.id = some entry) :
      written' entry ∨ (f (b.session i).items).get? entry.msg.id = some entry := by
    rcases hold with hwritten | hget
    · exact .inl (hlater entry hwritten)
    by_cases hkey : entry.msg.id = key
    · exact .inl (hlater entry (h.gone entry (hkey ▸ hget)))
    · rw [h.get, if_neg hkey]
      exact .inr hget
  refine ⟨?_, ?_, ?_, ?_, ?_, ?_, ?_⟩
  · intro id entry hget
    dsimp only at hget
    rw [h.get] at hget
    split at hget
    · next heq =>
      rw [heq]
      exact (h.number entry hget).1
    · exact hb.items id entry hget
  · intro id entry hget
    dsimp only at hget
    rw [h.get] at hget
    split at hget
    · exact .inl (mem_append_right _ ((h.queued i entry).mpr ⟨rfl, hget⟩))
    · exact (hb.source id entry hget).imp (mem_append_left os) fun hold => hold.append os
  · intro entry hmem entry' hget
    dsimp only at hget
    rw [h.get] at hget
    rcases hqueued entry hmem with hold | hresult
    · split at hget
      · next heq => exact absurd heq ((h.number entry' hget).2.1 entry hold)
      · exact hb.own entry hold entry' hget
    · rw [if_pos (h.number entry hresult).1, hresult] at hget
      exact (Option.some.inj hget).symm
  · intro entry entry' hmem hmem'
    exact hb.inherited entry entry' (hinherited entry hmem) (hinherited entry' hmem')
  · intro entry hmem
    rcases hqueued entry hmem with hold | hresult
    · exact hkept entry (hb.queued entry hold)
    · rw [h.get, if_pos (h.number entry hresult).1]
      exact .inr hresult
  · exact fun entry hmem => hkept entry (hb.inherits entry (hinherited entry hmem))
  · exact fun hsome entry hmem => hlater entry (hb.granted hsome entry (hinherited entry hmem))

theorem dirs_changeQueue (b : Broker) (i : Nat) (clientID : String) : (b.changeQueue i f).dirs clientID =
    if clientID = (b.session i).clientID then (b.dirs clientID).map fun dir =>
      if dir.inode = (b.session i).inode then { dir with items := f dir.items } else dir
    else b.dirs clientID := by
  change Function.update b.dirs _ _ clientID = _
  rw [Function.update_apply]
  split
  · next heq => rw [heq]
  · rfl

theorem Keyed.housed_replace (hb : Keyed b) (h : Replaces b i key result os f) :
    Housed ((b.changeQueue i f).observe os) (b.session i).clientID := by
  have hhoused := hb.housed (b.session i).clientID
  have howner (j : Nat) : (((b.changeQueue i f).observe os).session j).clientID = (b.session j).clientID := by
    rw [observe_session, session_changeQueue]
    split
    · next heq => rw [heq]
    · rfl
  have hclosed (j : Nat) : (((b.changeQueue i f).observe os).session j).closed = (b.session j).closed := by
    rw [observe_session, session_changeQueue]
    split
    · next heq => rw [heq]
    · rfl
  have hunderway (conn : Nat) (found : Option Nat)
      (hmem : Discarding (b.history ++ os) conn (b.session i).clientID found) :
      Discarding b.history conn (b.session i).clientID found :=
    hmem.of_append fun o ho => ⟨(h.rest o ho).1, fun conn found => (h.rest o ho).2.1 conn _ found⟩
  have hunderway' (conn : Nat) (found : Option Nat)
      (hmem : Discarding b.history conn (b.session i).clientID found) :
      Discarding (b.history ++ os) conn (b.session i).clientID found :=
    hmem.append fun o ho => ⟨(h.rest o ho).1, (h.rest o ho).2.2.1 conn _⟩
  -- an open queue is the current one, or all of the client's messages are discarded
  have hplace := hhoused.opened i h.lt rfl h.opened
  have hcurrent (j : Nat) (hget : b.sessions.get? (b.session i).clientID = some j) : j = i := by
    rcases hplace with hsame | ⟨conn, hdiscarding⟩
    · exact Option.some.inj (hget.symm.trans hsame)
    · exact absurd hdiscarding ((hhoused.current j hget).calm conn _)
  have hdiscarded (conn : Nat) (found : Option Nat)
      (hmem : Discarding b.history conn (b.session i).clientID found) (j : Nat) (entry : Queued)
      (hentry : .queued j entry ∈ b.history ++ os) (hj : (b.session j).clientID = (b.session i).clientID) :
      Discarded (b.history ++ os) (b.session i).clientID j entry := by
    rcases mem_append.mp hentry with hold | hnew
    · exact (hhoused.discards conn found hmem j entry hold hj).append os
    · obtain ⟨rfl, -⟩ := (h.queued j entry).mp hnew
      rcases hplace with hsame | ⟨conn', hdiscarding⟩
      · exact absurd hmem ((hhoused.current j hsame).calm conn found)
      · exact .inl ⟨conn', mem_append_left os (mem_of_mem_recent hdiscarding.1)⟩
  refine ⟨?_, ?_, ?_, ?_, ?_, ?_⟩
  · intro j hget
    obtain rfl := hcurrent j hget
    have hold := hhoused.current j hget
    obtain ⟨dir, hdir, hinode, hitems⟩ := hold.dir
    refine ⟨hold.lt, howner j, (hclosed j).trans h.opened, ⟨{ dir with items := f dir.items }, ?_, ?_, ?_⟩, ?_⟩
    · rw [observe_dirs, dirs_changeQueue, if_pos rfl, hdir, Option.map_some, if_pos hinode]
    · rw [observe_session, session_changeQueue, if_pos rfl]
      exact hinode
    · rw [observe_session, session_changeQueue, if_pos rfl, hitems]
    · exact fun conn found hmem => hold.calm conn found (hunderway conn found hmem)
  · intro j hj hsame hopen
    rw [howner] at hsame
    rw [hclosed] at hopen
    exact (hhoused.opened j hj hsame hopen).imp_right fun ⟨conn, hmem⟩ => ⟨conn, hunderway' conn _ hmem⟩
  · intro dir id entry hdir hget
    rw [observe_dirs, dirs_changeQueue, if_pos rfl] at hdir
    obtain ⟨dir₀, hdir₀, rfl⟩ := Option.map_eq_some_iff.mp hdir
    split at hget
    · dsimp only at hget
      rw [h.get] at hget
      split at hget
      · next heq =>
        rw [heq]
        exact (h.number entry hget).1
      · exact hhoused.items dir₀ id entry hdir₀ hget
    · exact hhoused.items dir₀ id entry hdir₀ hget
  · intro j hget k entry hentry hk
    obtain rfl := hcurrent j hget
    rw [howner] at hk
    rcases mem_append.mp hentry with hold | hnew
    · rcases hhoused.heirs j hget k entry hold hk with hgone | hwritten | hsame | hinherited
      · exact .inl (hgone.append os)
      · exact .inr (.inl (hwritten.later hb.numbered h.onward))
      · exact .inr (.inr (.inl hsame))
      · exact .inr (.inr (.inr (hinherited.append os)))
    · exact .inr (.inr (.inl ((h.queued k entry).mp hnew).1))
  · intro conn found hmem j entry hentry hj
    rw [howner] at hj
    exact hdiscarded conn found (hunderway conn found hmem) j entry hentry hj
  · intro hget j entry hentry hj
    rw [howner] at hj
    rcases hplace with hsame | ⟨conn, hmem⟩
    · rw [observe_sessions] at hget
      exact absurd (hsame.symm.trans hget) (by simp)
    · exact .inl (hdiscarded conn _ hmem j entry hentry hj)

theorem Keyed.replace (hb : Keyed b) (h : Replaces b i key result os f) :
    Keyed ((b.changeQueue i f).observe os) where
  numbered := hb.numbered.replace h
  filed := by
    intro j
    rw [observe_session, session_changeQueue]
    split
    · next heq =>
      subst heq
      exact (hb.filed j).replace h fun entry hwritten => hwritten.later hb.numbered h.onward
    · next hne =>
      refine (hb.filed j).transfer rfl (hb.filed j).granted (fun entry hwritten => ?_) fun o ho => ⟨?_, ?_⟩
      · exact hwritten.later hb.numbered h.onward
      · rintro entry rfl
        exact hne ((h.queued j entry).mp ho).1
      · exact (h.rest o ho).2.2.2.1 j
  housed := by
    intro clientID
    by_cases howner : clientID = (b.session i).clientID
    · rw [howner]
      exact hb.housed_replace h
    have hother (j : Nat) (hj : (((b.changeQueue i f).observe os).session j).clientID = clientID) : j ≠ i := by
      rintro rfl
      rw [observe_session, session_changeQueue, if_pos rfl] at hj
      exact howner hj.symm
    refine (hb.housed clientID).transfer hb.numbered h.onward ⟨rfl, rfl, ?_, ?_, ?_, ?_, ?_⟩
    · rw [observe_dirs, dirs_changeQueue, if_neg howner]
    · intro j hj hsame
      rw [observe_session, session_changeQueue, if_neg (hother j hsame)]
      exact ⟨hj, rfl, rfl, rfl⟩
    · exact fun o ho => ⟨(h.rest o ho).1, fun conn found => (h.rest o ho).2.1 conn clientID found,
        fun conn => (h.rest o ho).2.2.1 conn clientID⟩
    · exact fun j entry hmem hj => hother j hj ((h.queued j entry).mp hmem).1
    · exact fun j entries hmem => absurd rfl ((h.rest _ hmem).2.2.2.1 j entries)

end

end Nodra.Mqtt
