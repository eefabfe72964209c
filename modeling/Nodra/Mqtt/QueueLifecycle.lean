import Nodra.Mqtt.QueueKeys

/-! Sessions come and go: they are discarded and opened again, and the broker is restarted.  The
messages of a client id go from one session to the next through its directory. -/
namespace Nodra.Mqtt
open Lines Router Std Interleave Program OrderedMap

section

variable {b : Broker} {conn i : Nat} {clientID : String}

theorem Keyed.forget (hb : Keyed b) (hnew : .discarded conn clientID ∉ recent b.history) :
    Keyed ({ b with sessions := b.sessions.remove clientID }.observe
      [.discarding conn clientID (b.sessions.get? clientID)]) := by
  have hstep : Onward b ({ b with sessions := b.sessions.remove clientID }.observe
      [.discarding conn clientID (b.sessions.get? clientID)]) := ⟨⟨_, rfl⟩, le_rfl, fun _ _ => rfl⟩
  have hqueued (j : Nat) (entry : Queued)
      (hmem : .queued j entry ∈ b.history ++ [.discarding conn clientID (b.sessions.get? clientID)]) :
      .queued j entry ∈ b.history := by simpa using hmem
  have hgone (j : Nat) (entry : Queued)
      (hmem : .queued j entry ∈ b.history ++ [.discarding conn clientID (b.sessions.get? clientID)]) :
      Discarded (b.history ++ [.discarding conn clientID (b.sessions.get? clientID)]) clientID j entry :=
    .inr ⟨_, _, conn, _, rfl, hqueued j entry hmem, List.mem_singleton.mpr rfl⟩
  refine ⟨?_, ?_, ?_⟩
  · exact hb.numbered.transfer hstep rfl (fun _ _ => rfl) (by simp [Observation.session?])
  · intro j
    refine (hb.filed j).transfer rfl (hb.filed j).granted (fun entry hwritten => ?_) (by simp)
    exact hwritten.later hb.numbered hstep
  intro other
  by_cases hother : other = clientID
  · subst hother
    have hnone : (b.sessions.remove other).get? other = none := by
      rw [get?_remove, if_pos rfl]
    have hvacuous (j : Nat) (hget : (b.sessions.remove other).get? other = some j) : False := by
      rw [hnone] at hget
      cases hget
    refine ⟨fun j hget => (hvacuous j hget).elim, ?_, (hb.housed other).items, fun j hget => (hvacuous j hget).elim,
      fun _ _ _ j entry hmem _ => hgone j entry hmem, fun _ j entry hmem _ => .inl (hgone j entry hmem)⟩
    intro j hj howner hopen
    right
    rcases (hb.housed other).opened j hj howner hopen with hget | ⟨conn', hmem⟩
    · refine ⟨conn, ?_⟩
      rw [Discarding, observe_history, hget, recent_append (by simp)]
      refine ⟨by simp, fun hmem => ?_⟩
      exact hnew (by simpa using hmem)
    · exact ⟨conn', hmem.append (by simp)⟩
  · refine (hb.housed other).transfer hb.numbered hstep ⟨rfl, ?_, rfl, fun j hj _ => ⟨hj, rfl, rfl, rfl⟩, ?_, ?_, ?_⟩
    · exact (get?_remove ..).trans (if_neg hother)
    · simp [Ne.symm hother]
    · simp
    · simp

theorem Keyed.close (hb : Keyed b) {found : Option Nat}
    (hunderway : Discarding b.history conn (b.session i).clientID found) :
    Keyed (b.setSession i fun s => { s with closed := true }) := by
  rw [← observe_nil (b.setSession i fun s => { s with closed := true })]
  have hstep : Onward b ((b.setSession i fun s => { s with closed := true }).observe []) :=
    onward_setSession fun _ => rfl
  have hsame (j : Nat) (hj : j ≠ i) :
      (((b.setSession i fun s => { s with closed := true }).observe []).session j) = b.session j := by
    rw [observe_session, session_setSession, if_neg hj]
  have howner (j : Nat) : ((b.setSession i fun s => { s with closed := true }).session j).clientID =
      (b.session j).clientID := by
    rw [session_setSession]
    split
    · next heq => rw [heq]
    · rfl
  refine ⟨?_, ?_, ?_⟩
  · refine hb.numbered.transfer hstep rfl (fun j _ => ?_) nofun
    rw [observe_session, session_setSession]
    split
    · next heq => rw [heq]
    · rfl
  · exact hb.filed_setSession (fun _ => ⟨rfl, rfl⟩) (hb.filed i).granted nofun
  intro other
  by_cases hother : other = (b.session i).clientID
  · subst hother
    have hhoused := hb.housed (b.session i).clientID
    have hnone (j : Nat) (hget : b.sessions.get? (b.session i).clientID = some j) : False :=
      (hhoused.current j hget).calm conn found hunderway
    rw [observe_nil]
    refine ⟨fun j hget => (hnone j hget).elim, ?_, hhoused.items, fun j hget => (hnone j hget).elim, ?_, ?_⟩
    · intro j hj hclientID hopen
      rw [howner] at hclientID
      rw [session_setSession] at hopen
      split at hopen
      · cases hopen
      · exact hhoused.opened j hj hclientID hopen
    · intro conn' found' hmem j entry hentry hj
      rw [howner] at hj
      exact hhoused.discards conn' found' hmem j entry hentry hj
    · intro _ j entry hentry hj
      rw [howner] at hj
      exact .inl (hhoused.discards conn found hunderway j entry hentry hj)
  · refine (hb.housed other).transfer hb.numbered hstep ⟨rfl, rfl, rfl, fun j hj hclientID => ?_, nofun, nofun, nofun⟩
    have hne : j ≠ i := by
      rintro rfl
      rw [observe_session, howner] at hclientID
      exact hother hclientID.symm
    rw [hsame j hne]
    exact ⟨hj, rfl, rfl, rfl⟩

theorem Keyed.delete (hb : Keyed b) {found : Option Nat} {dirs : String → Option Dir}
    (hunderway : Discarding b.history conn clientID found)
    (hclosed : ∀ j, .discarding conn clientID (some j) ∈ recent b.history → (b.session j).closed = true)
    (hdirs : dirs = b.dirs ∨ dirs = Function.update b.dirs clientID none) :
    Keyed ({ b with dirs }.observe [.discarded conn clientID]) := by
  have hstep : Onward b ({ b with dirs }.observe [.discarded conn clientID]) := ⟨⟨_, rfl⟩, le_rfl, fun _ _ => rfl⟩
  refine ⟨?_, ?_, ?_⟩
  · exact hb.numbered.transfer hstep rfl (fun _ _ => rfl) (by simp [Observation.session?])
  · intro j
    refine (hb.filed j).transfer rfl (hb.filed j).granted (fun entry hwritten => ?_) (by simp)
    exact hwritten.later hb.numbered hstep
  intro other
  by_cases hother : other = clientID
  · subst hother
    have hhoused := hb.housed other
    have hnone (j : Nat) (hget : b.sessions.get? other = some j) : False :=
      (hhoused.current j hget).calm conn found hunderway
    have hgone (j : Nat) (entry : Queued) (hmem : .queued j entry ∈ b.history ++ [.discarded conn other])
        (hj : (b.session j).clientID = other) : Discarded (b.history ++ [.discarded conn other]) other j entry := by
      have hold : .queued j entry ∈ b.history := by simpa using hmem
      exact (hhoused.discards conn found hunderway j entry hold hj).append _
    refine ⟨fun j hget => (hnone j hget).elim, ?_, ?_, fun j hget => (hnone j hget).elim,
      fun _ _ _ j entry hmem hj => hgone j entry hmem hj, fun _ j entry hmem hj => .inl (hgone j entry hmem hj)⟩
    · intro j hj howner hopen
      rcases hhoused.opened j hj howner hopen with hget | ⟨conn', hmem⟩
      · exact .inl hget
      · have hne : conn' ≠ conn := by
          rintro rfl
          rw [observe_session, hclosed j hmem.1] at hopen
          cases hopen
        exact .inr ⟨conn', hmem.append (by simp [hne.symm])⟩
    · intro dir id entry hdir
      rcases hdirs with rfl | rfl
      · exact hhoused.items dir id entry hdir
      · have hnone : Function.update b.dirs other none other = some dir := hdir
        rw [Function.update_self] at hnone
        cases hnone
  · refine (hb.housed other).transfer hb.numbered hstep ⟨rfl, rfl, ?_, fun j hj _ => ⟨hj, rfl, rfl, rfl⟩, ?_, ?_, ?_⟩
    · rcases hdirs with rfl | rfl
      · rfl
      · exact Function.update_of_ne hother ..
    · simp [Ne.symm hother]
    · simp
    · simp

theorem Keyed.newSession (hb : Keyed b) (hnone : b.sessions.get? clientID = none)
    (hcalm : ∀ conn found, ¬Discarding b.history conn clientID found) {dir : Dir}
    (hdir : dir = (b.dirs clientID).getD { inode := b.nextInode }) :
    Keyed ((b.newSession clientID dir).observe
      [.opened b.nextSession dir.items.values, .joining conn b.nextSession]) := by
  have hold (j : Nat) (hj : j < b.nextSession) (os : List Observation) :
      ((b.newSession clientID dir).observe os).session j = b.session j := by
    rw [observe_session, session_newSession, if_neg (Nat.ne_of_lt hj)]
  have hnew (os : List Observation) : ((b.newSession clientID dir).observe os).session b.nextSession =
      { clientID, items := dir.items, inode := dir.inode } := by
    rw [observe_session, session_newSession, if_pos rfl]
  have hstep : Onward b ((b.newSession clientID dir).observe
      [.opened b.nextSession dir.items.values, .joining conn b.nextSession]) :=
    ⟨⟨_, rfl⟩, Nat.le_succ _, fun j hj => by rw [hold j hj]⟩
  have hitems (id : String) (entry : Queued) (hget : dir.items.get? id = some entry) : entry.msg.id = id := by
    cases hdirs : b.dirs clientID with
    | none =>
      rw [hdirs] at hdir
      rw [hdir] at hget
      cases hget
    | some dir₀ =>
      rw [hdirs, Option.getD_some] at hdir
      exact (hb.housed clientID).items dir₀ id entry hdirs (hdir ▸ hget)
  have hfresh (entry : Queued) : .queued b.nextSession entry ∉ b.history := fun hmem =>
    absurd (hb.numbered.fresh _ hmem b.nextSession rfl) (Nat.lt_irrefl _)
  have hqueued (j : Nat) (entry : Queued) (hmem : .queued j entry ∈ b.history ++
      [.opened b.nextSession dir.items.values, .joining conn b.nextSession]) : .queued j entry ∈ b.history := by
    simpa using hmem
  have hinherited (entry : Queued) : Inherited (b.history ++
      [.opened b.nextSession dir.items.values, .joining conn b.nextSession]) b.nextSession entry ↔
        entry ∈ dir.items.values := by
    refine ⟨?_, fun hmem => ⟨dir.items.values, by simp, hmem⟩⟩
    rintro ⟨entries, hmem, hentry⟩
    rcases List.mem_append.mp hmem with hbefore | hafter
    · exact absurd (hb.numbered.fresh _ hbefore b.nextSession rfl) (Nat.lt_irrefl _)
    · obtain rfl : entries = dir.items.values := by simpa using hafter
      exact hentry
  have hvalue (entry : Queued) (hmem : entry ∈ dir.items.values) : dir.items.get? entry.msg.id = some entry := by
    obtain ⟨key, hget⟩ := exists_get?_of_mem_values hmem
    rw [hitems key entry hget]
    exact hget
  have hunderway (conn' : Nat) (found : Option Nat) (hmem : Discarding (b.history ++
      [.opened b.nextSession dir.items.values, .joining conn b.nextSession]) conn' clientID found) : False :=
    hcalm conn' found (hmem.of_append (by simp))
  refine ⟨?_, ?_, ?_⟩
  · refine hb.numbered.transfer hstep rfl (fun j hj => by rw [hold j hj]) ?_
    simp [Observation.session?, Broker.newSession]
  · intro j
    by_cases hj : j = b.nextSession
    · subst hj
      rw [hnew]
      refine ⟨hitems, ?_, ?_, ?_, ?_, ?_, fun hsome => absurd rfl hsome⟩
      · intro id entry hget
        exact .inr ((hinherited entry).mpr (mem_values_of_get? hget))
      · exact fun entry hmem => absurd (hqueued _ entry hmem) (hfresh entry)
      · intro entry entry' hmem hmem' hid
        have hget := hvalue entry ((hinherited entry).mp hmem)
        rw [hid, hvalue entry' ((hinherited entry').mp hmem')] at hget
        exact (Option.some.inj hget).symm
      · exact fun entry hmem => absurd (hqueued _ entry hmem) (hfresh entry)
      · exact fun entry hmem => .inr (hvalue entry ((hinherited entry).mp hmem))
    · rw [observe_session, session_newSession, if_neg hj]
      refine (hb.filed j).transfer rfl (hb.filed j).granted (fun entry hwritten => ?_) (by simp [Ne.symm hj])
      exact hwritten.later hb.numbered hstep
  intro other
  by_cases hother : other = clientID
  · subst hother
    have hget : (b.sessions.put other b.nextSession).get? other = some b.nextSession :=
      get?_put_self ..
    refine ⟨?_, ?_, ?_, ?_, fun conn' found hmem => (hunderway conn' found hmem).elim, ?_⟩
    · intro j hj
      cases hget.symm.trans hj
      refine ⟨Nat.lt_succ_self _, by rw [hnew], by rw [hnew], ⟨dir, Function.update_self .., ?_⟩, hunderway⟩
      rw [hnew]
      exact ⟨rfl, rfl⟩
    · intro j hj howner hopen
      rcases Nat.lt_succ_iff_lt_or_eq.mp hj with hlt | rfl
      · rw [hold j hlt] at howner hopen
        rcases (hb.housed other).opened j hlt howner hopen with hsome | ⟨conn', hmem⟩
        · cases hnone.symm.trans hsome
        · exact absurd hmem (hcalm conn' _)
      · exact .inl hget
    · intro dir' id entry hdir' hentry
      have hsame : Function.update b.dirs other (some dir) other = some dir' := hdir'
      rw [Function.update_self] at hsame
      cases hsame
      exact hitems id entry hentry
    · intro j hj k entry hmem hk
      cases hget.symm.trans hj
      have hbefore := hqueued k entry hmem
      rw [hold k (hb.numbered.fresh _ hbefore k rfl)] at hk
      rcases (hb.housed other).stored hnone k entry hbefore hk with hgone | hwritten | ⟨dir₀, hdir₀, hentry⟩
      · exact .inl (hgone.append _)
      · exact .inr (.inl (hwritten.later hb.numbered hstep))
      · rw [hdir₀, Option.getD_some] at hdir
        exact .inr (.inr (.inr ((hinherited entry).mpr (mem_values_of_get? (hdir ▸ hentry)))))
    · intro hnone'
      cases hget.symm.trans hnone'
  · refine (hb.housed other).transfer hb.numbered hstep ⟨rfl, ?_, ?_, ?_, by simp, by simp, ?_⟩
    · exact (get?_put ..).trans (if_neg hother)
    · exact Function.update_of_ne hother ..
    · intro j hj howner
      rcases Nat.lt_succ_iff_lt_or_eq.mp hj with hlt | rfl
      · rw [hold j hlt]
        exact ⟨hlt, rfl, rfl, rfl⟩
      · rw [hnew] at howner
        exact absurd howner.symm hother
    · intro j entries hmem howner
      obtain ⟨rfl, -⟩ : j = b.nextSession ∧ entries = dir.items.values := by simpa using hmem
      rw [hnew] at howner
      exact hother howner.symm

def Broker.restart (b : Broker) : Broker :=
  { b with
    clients := []
    sessions := .empty
    session := fun i => { b.session i with closed := true } }.observe [.restarted]

theorem Keyed.restart (hb : Keyed b) : Keyed b.restart := by
  have hstep : Onward b b.restart := ⟨⟨_, rfl⟩, le_rfl, fun _ _ => rfl⟩
  refine ⟨?_, ?_, ?_⟩
  · exact hb.numbered.transfer hstep rfl (fun _ _ => rfl) (by simp [Observation.session?])
  · intro j
    refine (hb.filed j).transfer rfl (hb.filed j).granted (fun entry hwritten => ?_) (by simp)
    exact hwritten.later hb.numbered hstep
  · intro clientID
    refine ⟨by rintro _ ⟨⟩, by rintro _ _ _ ⟨⟩, (hb.housed clientID).items, by rintro _ ⟨⟩, ?_, ?_⟩
    · rintro conn found ⟨hmem, -⟩
      rw [Broker.restart, observe_history, recent_restarted] at hmem
      cases hmem
    · rintro - j entry hmem rfl
      have hbefore : .queued j entry ∈ b.history := by simpa [Broker.restart] using hmem
      rcases hb.queueKept j entry hbefore with hgone | hwritten | hstored
      · exact .inl (hgone.append _)
      · exact .inr (.inl (hwritten.later hb.numbered hstep))
      · exact .inr (.inr hstored.1)

theorem keyed_empty : Keyed {} where
  numbered := ⟨nofun, nofun, nofun, nofun⟩
  filed := fun _ => ⟨nofun, nofun, nofun, nofun, nofun, nofun, fun h => absurd rfl h⟩
  housed := fun _ => ⟨nofun, nofun, nofun, nofun, nofun, nofun⟩

end

end Nodra.Mqtt
