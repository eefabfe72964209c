import Nodra.Mqtt.Publisher

/-! The invariant of a publisher and its connections: on the connection in use every packet id
stands at one point of its handshake, and on those before no message can be let go any more. -/
namespace Nodra.Mqtt
open List OrderedMap

variable {mine : Nat → Bool} {net : Network} {conn index pid : Nat}

section

inductive Network.Phase (net : Network) (l : Link) (pid : Nat) : Prop where
  | idle (hflight : net.flights.get? pid = none) (h : l.Idle pid)
  | sending (flight : Flight) (hflight : net.flights.get? pid = some flight) (hreleased : flight.released = false)
      (h : l.Sending pid flight.serial)
  | releasing (flight : Flight) (hflight : net.flights.get? pid = some flight) (hreleased : flight.released = true)
      (h : l.Releasing pid flight.serial net.taken net.handled)

structure Network.Good (mine : Nat → Bool) (net : Network) : Prop where
  current : ∀ conn, net.current = some conn → conn ∈ net.used
  used : ∀ conn ∈ net.used, mine conn = true
  fresh : ∀ conn, conn ∉ net.used → (net.link conn).offered = []
  quiet : ∀ conn, mine conn = true → conn ∉ net.used →
    (∀ pid, (net.link conn).pending pid = none) ∧ (net.link conn).answers = []
  tagged : ∀ conn, ∀ o ∈ (net.link conn).offered, o.packet.shake = none → o.serial = none
  phase : ∀ conn, net.current = some conn → ∀ pid, net.Phase (net.link conn) pid
  past : ∀ conn ∈ net.used, net.current ≠ some conn → ∀ pid, (net.link conn).Past pid
  flight : ∀ pid flight, net.flights.get? pid = some flight → flight.serial < net.next
  distinct : ∀ pid pid' flight flight', net.flights.get? pid = some flight → net.flights.get? pid' = some flight' →
    flight.serial = flight'.serial → pid = pid'
  untaken : ∀ pid flight, net.flights.get? pid = some flight → flight.released = false → flight.serial ∉ net.taken
  taken : ∀ n ∈ net.taken, n < net.next
  owned : ∀ conn, ∀ n ∈ (net.link conn).taken, n ∈ net.taken
  once : ∀ conn, (net.link conn).taken.Nodup
  apart : ∀ conn conn' n, n ∈ (net.link conn).taken → n ∈ (net.link conn').taken → conn = conn'
  handled : ∀ conn, (net.link conn).handled <+: (net.link conn).taken
  source : ∀ n ∈ net.handled, ∃ conn, n ∈ (net.link conn).handled
  report : ∀ conn, ∀ n ∈ (net.link conn).handled, n ∈ net.handled
  nodup : net.handled.Nodup
  completed : ∀ n ∈ net.completed, n ∈ net.handled

variable {l l' : Link}

theorem Network.good_empty : ({} : Network).Good mine where
  current := nofun
  used := nofun
  fresh := fun _ _ => rfl
  quiet := fun _ _ _ => ⟨fun _ => rfl, rfl⟩
  tagged := nofun
  phase := nofun
  past := nofun
  flight := nofun
  distinct := nofun
  untaken := nofun
  taken := nofun
  owned := nofun
  once := fun _ => nodup_nil
  apart := nofun
  handled := fun _ => prefix_refl _
  source := nofun
  report := nofun
  nodup := nodup_nil
  completed := nofun

theorem Network.link_setLink (net : Network) (conn : Nat) (f : Link → Link) (other : Nat) :
    (net.setLink conn f).link other = if other = conn then f (net.link conn) else net.link other :=
  Function.update_apply ..

theorem Network.Phase.narrow {net' : Network} (h : net.Phase l pid) (hl : l.Narrows pid l')
    (hflight : net'.flights.get? pid = net.flights.get? pid)
    (htaken : ∀ flight, net.flights.get? pid = some flight → flight.serial ∈ net'.taken → flight.serial ∈ net.taken)
    (hhandled : ∀ n ∈ net.handled, n ∈ net'.handled) : net'.Phase l' pid := by
  cases h with
  | idle hnone h => exact .idle (hflight.trans hnone) (h.narrow hl)
  | sending flight hsome hreleased h => exact .sending flight (hflight.trans hsome) hreleased (h.narrow hl)
  | releasing flight hsome hreleased h =>
    exact .releasing flight (hflight.trans hsome) hreleased (h.narrow hl (htaken flight hsome) (hhandled _))

theorem Network.Good.taken_of_handled (h : net.Good mine) {n : Nat} (hn : n ∈ net.handled) : n ∈ net.taken := by
  obtain ⟨conn, hmem⟩ := h.source n hn
  exact h.owned conn n ((h.handled conn).subset hmem)

theorem Network.Good.serial_of_not_mine (h : net.Good mine) (hmine : ¬mine conn = true) (index : Nat) :
    (net.link conn).serial index = none := by
  have hempty := h.fresh conn fun hmem => hmine (h.used conn hmem)
  simp [Link.serial, hempty]

theorem Network.Good.relink (h : net.Good mine) {f : Link → Link} {flights : OrderedMap Nat Flight} {next : Nat}
    {completed : List Nat}
    (hfresh : conn ∉ net.used → (f (net.link conn)).offered = (net.link conn).offered)
    (htagged : ∀ o ∈ (f (net.link conn)).offered, o.packet.shake = none → o.serial = none)
    (htaken : (f (net.link conn)).taken = (net.link conn).taken)
    (hhandled : (f (net.link conn)).handled = (net.link conn).handled)
    (hused : mine conn = true → conn ∈ net.used)
    (hphase : net.current = some conn → ∀ pid, net.Phase (net.link conn) pid →
      { net.setLink conn f with flights, next, completed }.Phase (f (net.link conn)) pid)
    (hother : net.current ≠ some conn → flights = net.flights)
    (hpast : net.current ≠ some conn → mine conn = true → ∀ pid, (net.link conn).Past pid →
      (f (net.link conn)).Past pid)
    (hflight : ∀ pid flight, flights.get? pid = some flight → flight.serial < next)
    (hdistinct : ∀ pid pid' flight flight', flights.get? pid = some flight → flights.get? pid' = some flight' →
      flight.serial = flight'.serial → pid = pid')
    (huntaken : ∀ pid flight, flights.get? pid = some flight → flight.released = false → flight.serial ∉ net.taken)
    (hnext : net.next ≤ next) (hcompleted : ∀ n ∈ completed, n ∈ net.handled) :
    { net.setLink conn f with flights, next, completed }.Good mine := by
  have hlink := Network.link_setLink net conn f
  have hsame {α : Type} (g : Link → α) (hg : g (f (net.link conn)) = g (net.link conn)) (other : Nat) :
      g ((net.setLink conn f).link other) = g (net.link other) := by
    rw [hlink]
    split
    · next heq => rw [heq, hg]
    · rfl
  have htaken' := hsame Link.taken htaken
  have hhandled' := hsame Link.handled hhandled
  refine
    { h with
      fresh := ?_
      quiet := ?_
      tagged := ?_
      phase := ?_
      past := ?_
      flight := hflight
      distinct := hdistinct
      untaken := huntaken
      taken := fun n hn => Nat.lt_of_lt_of_le (h.taken n hn) hnext
      owned := fun other => (htaken' other).symm ▸ h.owned other
      once := fun other => (htaken' other).symm ▸ h.once other
      apart := ?_
      handled := ?_
      source := ?_
      report := fun other => (hhandled' other).symm ▸ h.report other
      completed := hcompleted }
  · intro other hother
    rw [hlink]
    split
    · next heq =>
      rw [heq] at hother
      exact (hfresh hother).trans (h.fresh conn hother)
    · exact h.fresh other hother
  · intro other hmine hother
    have hne : other ≠ conn := by
      rintro rfl
      exact hother (hused hmine)
    rw [hlink, if_neg hne]
    exact h.quiet other hmine hother
  · intro other
    rw [hlink]
    split
    · exact htagged
    · exact h.tagged other
  · intro other hcurrent pid
    rw [hlink]
    split
    · next heq =>
      rw [heq] at hcurrent
      exact hphase hcurrent pid (h.phase conn hcurrent pid)
    · next hne =>
      have hconn : net.current ≠ some conn := fun hconn => hne (Option.some.inj (hcurrent.symm.trans hconn))
      refine (h.phase other hcurrent pid).narrow (.refl pid _) ?_ (fun _ _ h => h) fun _ h => h
      rw [hother hconn]
  · intro other hmem hcurrent pid
    rw [hlink]
    split
    · next heq =>
      rw [heq] at hmem hcurrent
      exact hpast hcurrent (h.used conn hmem) pid (h.past conn hmem hcurrent pid)
    · exact h.past other hmem hcurrent pid
  · intro other other' n
    rw [htaken', htaken']
    exact h.apart other other' n
  · intro other
    rw [hhandled', htaken']
    exact h.handled other
  · intro n hn
    obtain ⟨other, hmem⟩ := h.source n hn
    exact ⟨other, (hhandled' other).symm ▸ hmem⟩

theorem Network.Good.setLink (h : net.Good mine) {f : Link → Link}
    (hoffered : (f (net.link conn)).offered = (net.link conn).offered)
    (htaken : (f (net.link conn)).taken = (net.link conn).taken)
    (hhandled : (f (net.link conn)).handled = (net.link conn).handled)
    (hused : mine conn = true → conn ∈ net.used)
    (hphase : net.current = some conn → ∀ pid, net.Phase (net.link conn) pid →
      (net.setLink conn f).Phase (f (net.link conn)) pid)
    (hpast : mine conn = true → ∀ pid, (net.link conn).Past pid → (f (net.link conn)).Past pid) :
    (net.setLink conn f).Good mine :=
  h.relink (fun _ => hoffered) (hoffered ▸ h.tagged conn) htaken hhandled hused hphase (fun _ => rfl)
    (fun _ => hpast) h.flight h.distinct h.untaken Nat.le.refl h.completed

theorem Network.Good.read (h : net.Good mine) (hused : mine conn = true → conn ∈ net.used) :
    (net.setLink conn fun l => { l with reads := l.reads + 1 }).Good mine := by
  have hnarrows (pid : Nat) :
      (net.link conn).Narrows pid { net.link conn with reads := (net.link conn).reads + 1 } :=
    { Link.Narrows.refl pid (net.link conn) with }
  apply h.setLink rfl rfl rfl hused
  · exact fun _ pid hphase => hphase.narrow (hnarrows pid) rfl (fun _ _ h => h) fun _ h => h
  · exact fun _ pid hpast => hpast.narrow (hnarrows pid)

theorem Network.Good.hold (h : net.Good mine) (hle : (net.link conn).applied ≤ index)
    (ho : mine conn = true → ∃ o, (net.link conn).offered[index]? = some o ∧ o.IsPublish pid)
    (hused : mine conn = true → conn ∈ net.used) :
    (net.setLink conn (·.apply index pid (some index))).Good mine := by
  have hnarrows (pid' : Nat) (hne : pid' ≠ pid) :
      (net.link conn).Narrows pid' ((net.link conn).apply index pid (some index)) :=
    Link.narrows_apply hle (Link.apply_pending_of_ne hne)
  apply h.setLink rfl rfl rfl hused
  · intro hcurrent pid' hphase
    obtain ⟨o, hget, hpublish⟩ := ho (h.used conn (h.current conn hcurrent))
    by_cases hpid : pid' = pid
    · subst hpid
      cases hphase with
      | idle hflight h => exact absurd hpublish (h.publish o (Link.mem_ahead hle hget hpublish.about))
      | sending flight hflight hreleased h => exact .sending flight hflight hreleased (h.hold hle hget hpublish)
      | releasing flight hflight hreleased h => exact .releasing flight hflight hreleased (h.hold hle hget hpublish)
    · exact hphase.narrow (hnarrows pid' hpid) rfl (fun _ _ h => h) fun _ h => h
  · intro hmine pid' hpast
    obtain ⟨o, hget, hpublish⟩ := ho hmine
    by_cases hpid : pid' = pid
    · subst hpid
      exact hpast.hold hle hget hpublish
    · exact hpast.narrow (hnarrows pid' hpid)

theorem Network.Good.answer_pubrec (h : net.Good mine)
    (hpending : mine conn = true → (net.link conn).pending pid ≠ none)
    (hused : mine conn = true → conn ∈ net.used) : (net.setLink conn (·.answer (.pubrec pid))).Good mine := by
  apply h.setLink rfl rfl rfl hused
  · intro hcurrent pid' hphase
    have hne := hpending (h.used conn (h.current conn hcurrent))
    by_cases hpid : pid' = pid
    · subst hpid
      cases hphase with
      | idle hflight hidle => exact absurd hidle.pending hne
      | sending flight hflight hreleased hsending =>
        exact .sending flight hflight hreleased (hsending.answer_pubrec hne)
      | releasing flight hflight hreleased hreleasing =>
        exact .releasing flight hflight hreleased (hreleasing.answer_pubrec h.taken_of_handled hne)
    · have habout : (Reply.pubrec pid).about pid' = false := by simp [Reply.about, Ne.symm hpid]
      exact hphase.narrow (Link.narrows_answer habout) rfl (fun _ _ h => h) fun _ h => h
  · exact fun _ pid' hpast => ⟨hpast.clear, hpast.order⟩

theorem Network.Good.answer_pubcomp (h : net.Good mine)
    (hpending : mine conn = true → (net.link conn).pending pid = none)
    (htaken : mine conn = true → ∀ n ∈ (net.link conn).taken, n ∈ net.handled)
    (hused : mine conn = true → conn ∈ net.used) : (net.setLink conn (·.answer (.pubcomp pid))).Good mine := by
  apply h.setLink rfl rfl rfl hused
  · intro hcurrent pid' hphase
    have hmine := h.used conn (h.current conn hcurrent)
    by_cases hpid : pid' = pid
    · subst hpid
      cases hphase with
      | idle hflight hidle => exact .idle hflight hidle.answer_pubcomp
      | sending flight hflight hreleased hsending =>
        exact .sending flight hflight hreleased (hsending.answer_pubcomp (hpending hmine))
      | releasing flight hflight hreleased hreleasing =>
        exact .releasing flight hflight hreleased (hreleasing.answer_pubcomp (hpending hmine) (htaken hmine))
    · have habout : (Reply.pubcomp pid).about pid' = false := by simp [Reply.about, Ne.symm hpid]
      exact hphase.narrow (Link.narrows_answer habout) rfl (fun _ _ h => h) fun _ h => h
  · exact fun _ pid' hpast => ⟨hpast.clear, hpast.order⟩

end

section

variable {serial : Nat} {flight : Flight}

theorem Network.Good.pass (h : net.Good mine) (hle : (net.link conn).applied ≤ index)
    (hpending : mine conn = true → (net.link conn).pending pid = none)
    (hused : mine conn = true → conn ∈ net.used) :
    (net.setLink conn (·.apply index pid none)).Good mine := by
  have hnarrows (hmine : mine conn = true) (pid' : Nat) :
      (net.link conn).Narrows pid' ((net.link conn).apply index pid none) := by
    refine Link.narrows_apply hle ?_
    by_cases hpid : pid' = pid
    · subst hpid
      exact Link.apply_pending_self.trans (hpending hmine).symm
    · exact Link.apply_pending_of_ne hpid
  apply h.setLink rfl rfl rfl hused
  · intro hcurrent pid' hphase
    exact hphase.narrow (hnarrows (h.used conn (h.current conn hcurrent)) pid') rfl (fun _ _ h => h) fun _ h => h
  · exact fun hmine pid' hpast => hpast.narrow (hnarrows hmine pid')

theorem Network.link_take (net : Network) (conn serial : Nat) (f : Link → Link) (other : Nat) :
    ((net.setLink conn f).take conn (some serial)).link other =
      if other = conn then { f (net.link conn) with taken := (f (net.link conn)).taken ++ [serial] }
      else net.link other := by
  simp only [Network.take, Network.setLink, Function.update_self, Function.update_idem, Function.update_apply]

theorem Network.Good.takes (h : net.Good mine) (hcurrent : net.current = some conn)
    (hflight : net.flights.get? pid = some flight)
    (hreleasing : (net.link conn).Releasing pid flight.serial net.taken net.handled)
    (hreleased : flight.released = true) (hpending : (net.link conn).pending pid ≠ none)
    {o : Offer} (hle : (net.link conn).applied ≤ index) (ho : (net.link conn).offered[index]? = some o)
    (hpubrel : o.IsPubrel pid) :
    ((net.setLink conn (·.apply index pid none)).take conn (some flight.serial)).Good mine := by
  have hlink := Network.link_take net conn flight.serial (·.apply index pid none)
  have hnew : flight.serial ∉ net.taken := fun hmem => hpending (hreleasing.gone hmem).1
  have hused := h.current conn hcurrent
  refine
    { h with
      fresh := ?_
      quiet := ?_
      tagged := ?_
      phase := ?_
      past := ?_
      untaken := ?_
      taken := ?_
      owned := ?_
      once := ?_
      apart := ?_
      handled := ?_
      source := ?_
      report := ?_ }
  · intro other hother
    have hne : other ≠ conn := fun heq => hother (heq ▸ hused)
    rw [hlink, if_neg hne]
    exact h.fresh other hother
  · intro other hmine hother
    have hne : other ≠ conn := fun heq => hother (heq ▸ hused)
    rw [hlink, if_neg hne]
    exact h.quiet other hmine hother
  · intro other
    rw [hlink]
    split
    · exact h.tagged conn
    · exact h.tagged other
  · intro other hother pid'
    obtain rfl : conn = other := Option.some.inj (hcurrent.symm.trans hother)
    rw [hlink, if_pos rfl]
    by_cases hpid : pid' = pid
    · subst hpid
      exact .releasing flight hflight hreleased (hreleasing.take hle ho hpubrel)
    · have hnarrows : (net.link conn).Narrows pid' ((net.link conn).apply index pid none) :=
        Link.narrows_apply hle (Link.apply_pending_of_ne hpid)
      refine (h.phase conn hcurrent pid').narrow { hnarrows with taken := ?_ } rfl ?_ fun _ h => h
      · exact fun n hn => mem_append_left _ hn
      · intro flight' hflight' hmem
        rcases mem_cons.mp hmem with heq | hold
        · exact absurd (h.distinct pid' pid flight' flight hflight' hflight heq) hpid
        · exact hold
  · intro other hother hpast pid'
    have hne : other ≠ conn := fun heq => hpast (heq ▸ hcurrent)
    rw [hlink, if_neg hne]
    exact h.past other hother hpast pid'
  · intro pid' flight' hflight' hfalse hmem
    rcases mem_cons.mp hmem with heq | hold
    · cases h.distinct pid' pid flight' flight hflight' hflight heq
      cases hflight.symm.trans hflight'
      exact nomatch hreleased.symm.trans hfalse
    · exact h.untaken pid' flight' hflight' hfalse hold
  · intro n hn
    rcases mem_cons.mp hn with rfl | hold
    · exact h.flight pid flight hflight
    · exact h.taken n hold
  · intro other n hn
    rw [hlink] at hn
    split at hn
    · rcases mem_append.mp hn with hold | hn
      · exact mem_cons_of_mem _ (h.owned conn n hold)
      · rw [mem_singleton.mp hn]
        exact mem_cons_self
    · exact mem_cons_of_mem _ (h.owned other n hn)
  · intro other
    rw [hlink]
    split
    · refine nodup_append.mpr ⟨h.once conn, nodup_singleton _, fun n hn n' hn' heq => ?_⟩
      rw [heq, mem_singleton.mp hn'] at hn
      exact hnew (h.owned conn _ hn)
    · exact h.once other
  · have hwhere (other n : Nat) (hn : n ∈ (((net.setLink conn (·.apply index pid none)).take conn
        (some flight.serial)).link other).taken) :
        n ∈ (net.link other).taken ∨ n = flight.serial ∧ other = conn := by
      rw [hlink] at hn
      split at hn
      · next heq =>
        rw [heq]
        exact (mem_append.mp hn).imp_right fun hn => ⟨mem_singleton.mp hn, rfl⟩
      · exact .inl hn
    intro other other' n hn hn'
    rcases hwhere other n hn with hold | ⟨heq, rfl⟩ <;> rcases hwhere other' n hn' with hold' | ⟨heq', rfl⟩
    · exact h.apart other other' n hold hold'
    · rw [heq'] at hold
      exact absurd (h.owned _ _ hold) hnew
    · rw [heq] at hold'
      exact absurd (h.owned _ _ hold') hnew
    · rfl
  · intro other
    rw [hlink]
    split
    · exact (h.handled conn).trans (prefix_append _ _)
    · exact h.handled other
  · intro n hn
    obtain ⟨other, hother⟩ := h.source n hn
    refine ⟨other, ?_⟩
    rw [hlink]
    split
    · next heq => exact heq ▸ hother
    · exact hother
  · intro other
    rw [hlink]
    split
    · exact h.report conn
    · exact h.report other

theorem Network.Good.releasing (h : net.Good mine) (hused : conn ∈ net.used) {o : Offer}
    (hle : (net.link conn).applied ≤ index) (ho : (net.link conn).offered[index]? = some o) (hpubrel : o.IsPubrel pid)
    (hpending : (net.link conn).pending pid ≠ none) :
    net.current = some conn ∧ ∃ flight, net.flights.get? pid = some flight ∧ flight.released = true ∧
      (net.link conn).Releasing pid flight.serial net.taken net.handled := by
  have hahead : o ∈ (net.link conn).ahead pid := Link.mem_ahead hle ho hpubrel.about
  by_cases hcurrent : net.current = some conn
  · cases h.phase conn hcurrent pid with
    | idle hflight hidle => exact absurd hidle.pending hpending
    | sending flight hflight hreleased hsending => exact absurd hpubrel (hsending.clear hpending o hahead)
    | releasing flight hflight hreleased hreleasing => exact ⟨hcurrent, flight, hflight, hreleased, hreleasing⟩
  · exact absurd hpubrel ((h.past conn hused hcurrent pid).clear hpending o hahead)

theorem Network.Good.release (h : net.Good mine) (hle : (net.link conn).applied ≤ index)
    (ho : mine conn = true → ∃ o, (net.link conn).offered[index]? = some o ∧ o.IsPubrel pid)
    (hused : mine conn = true → conn ∈ net.used) :
    ((net.setLink conn (·.apply index pid none)).take conn
      (((net.link conn).pending pid).bind (net.link conn).serial)).Good mine := by
  by_cases hmine : mine conn = true
  · obtain ⟨o, hget, hpubrel⟩ := ho hmine
    cases hpending : (net.link conn).pending pid with
    | none => exact h.pass hle (fun _ => hpending) hused
    | some held =>
      have hne : (net.link conn).pending pid ≠ none := by simp [hpending]
      obtain ⟨hcurrent, flight, hflight, hreleased, hreleasing⟩ := h.releasing (hused hmine) hle hget hpubrel hne
      rw [Option.bind_some, hreleasing.pending held hpending]
      exact h.takes hcurrent hflight hreleasing hreleased hne hle hget hpubrel
  · have hnone : ((net.link conn).pending pid).bind (net.link conn).serial = none := by
      cases (net.link conn).pending pid with
      | none => rfl
      | some held => exact h.serial_of_not_mine hmine held
    rw [hnone]
    exact h.pass hle (fun h => absurd h hmine) hused

theorem Network.Good.handles (h : net.Good mine) {serial : Nat}
    (hlast : (net.link conn).taken = (net.link conn).handled ++ [serial]) :
    (net.handle conn (some serial)).Good mine := by
  have hlink (other : Nat) : (net.handle conn (some serial)).link other =
      if other = conn then { net.link conn with handled := (net.link conn).handled ++ [serial] }
      else net.link other := Function.update_apply ..
  have hsame {α : Type} (g : Link → α)
      (hg : g { net.link conn with handled := (net.link conn).handled ++ [serial] } = g (net.link conn))
      (other : Nat) : g ((net.handle conn (some serial)).link other) = g (net.link other) := by
    rw [hlink]
    split
    · next heq => rw [heq, hg]
    · rfl
  have hnarrows (other pid : Nat) : (net.link other).Narrows pid ((net.handle conn (some serial)).link other) := by
    rw [hlink]
    split
    · next heq =>
      rw [heq]
      exact { Link.Narrows.refl pid (net.link conn) with }
    · exact .refl pid _
  have hnew : serial ∉ net.handled := by
    intro hmem
    obtain ⟨other, hother⟩ := h.source serial hmem
    have htaken : serial ∈ (net.link conn).taken := by simp [hlast]
    obtain rfl : other = conn := h.apart other conn serial ((h.handled other).subset hother) htaken
    have honce := h.once other
    rw [hlast] at honce
    exact (nodup_append.mp honce).2.2 serial hother serial (mem_singleton_self serial) rfl
  have htaken := hsame Link.taken rfl
  refine
    { h with
      fresh := fun other => (hsame Link.offered rfl other).symm ▸ h.fresh other
      quiet := ?_
      tagged := fun other => (hsame Link.offered rfl other).symm ▸ h.tagged other
      phase := ?_
      past := fun other hother hcurrent pid => (h.past other hother hcurrent pid).narrow (hnarrows other pid)
      owned := fun other => (htaken other).symm ▸ h.owned other
      once := fun other => (htaken other).symm ▸ h.once other
      apart := ?_
      handled := ?_
      source := ?_
      report := ?_
      nodup := nodup_cons.mpr ⟨hnew, h.nodup⟩
      completed := fun n hn => mem_cons_of_mem serial (h.completed n hn) }
  · intro other hmine hother
    rw [hsame Link.answers rfl, hsame Link.pending rfl]
    exact h.quiet other hmine hother
  · intro other hcurrent pid
    exact (h.phase other hcurrent pid).narrow (hnarrows other pid) rfl (fun _ _ h => h)
      fun _ hn => mem_cons_of_mem serial hn
  · intro other other' n
    rw [htaken, htaken]
    exact h.apart other other' n
  · intro other
    rw [hlink]
    split
    · exact hlast ▸ prefix_refl _
    · exact h.handled other
  · intro n hn
    rcases mem_cons.mp hn with rfl | hold
    · refine ⟨conn, ?_⟩
      rw [hlink, if_pos rfl]
      exact mem_append_right _ mem_cons_self
    · obtain ⟨other, hother⟩ := h.source n hold
      refine ⟨other, ?_⟩
      rw [hlink]
      split
      · next heq => exact mem_append_left _ (heq ▸ hother)
      · exact hother
  · intro other n hn
    rw [hlink] at hn
    split at hn
    · rcases mem_append.mp hn with hold | hnew
      · exact mem_cons_of_mem serial (h.report conn n hold)
      · rw [mem_singleton.mp hnew]
        exact mem_cons_self
    · exact mem_cons_of_mem serial (h.report other n hn)

end

theorem Network.Good.moves (h : net.Good mine) (hmine : mine conn = true) (hfresh : conn ∉ net.used)
    (hsafe : ∀ flight ∈ net.flights.values, flight.released = true → flight.serial ∈ net.handled) :
    { net with current := some conn, used := conn :: net.used }.Good mine := by
  have hflights (pid : Nat) (flight : Flight) (hflight : net.flights.get? pid = some flight)
      (hreleased : flight.released = true) : flight.serial ∈ net.handled :=
    hsafe flight (mem_values_of_get? hflight) hreleased
  have hoffered := h.fresh conn hfresh
  obtain ⟨hpending, hanswers⟩ := h.quiet conn hmine hfresh
  have hahead (pid : Nat) : (net.link conn).ahead pid = [] := by simp [Link.ahead, hoffered]
  have hback (pid : Nat) : (net.link conn).back pid = [] := by simp [Link.back, hanswers]
  have hcarries (pid serial : Nat) : (net.link conn).Carries pid serial :=
    ⟨by simp [hahead], by simp [hpending]⟩
  refine
    { h with
      current := ?_
      used := ?_
      fresh := fun other hother => h.fresh other fun hmem => hother (mem_cons_of_mem conn hmem)
      quiet := fun other hmine hother => h.quiet other hmine fun hmem => hother (mem_cons_of_mem conn hmem)
      phase := ?_
      past := ?_ }
  · rintro _ ⟨⟩
    exact mem_cons_self
  · intro other hother
    rcases mem_cons.mp hother with rfl | hold
    · exact hmine
    · exact h.used other hold
  · rintro _ ⟨⟩ pid
    cases hflight : net.flights.get? pid with
    | none => exact .idle hflight ⟨by simp [hahead], by simp [hback], hpending pid⟩
    | some flight =>
      cases hreleased : flight.released with
      | false =>
        refine .sending flight hflight hreleased { hcarries pid flight.serial with
          clear := fun hne => absurd (hpending pid) hne
          order := by simp [hahead]
          pubrec := by simp [hback]
          answers := by simp [hback] }
      | true =>
        refine .releasing flight hflight hreleased { hcarries pid flight.serial with
          pubcomp := by simp [hback]
          kept := .inl (hflights pid flight hflight hreleased)
          gone := fun _ => ⟨hpending pid, by simp [hahead]⟩
          order := by simp [hahead]
          answers := by simp [hback] }
  · intro other hother hne pid
    have hold : other ∈ net.used := by
      rcases mem_cons.mp hother with rfl | hold
      · exact absurd rfl hne
      · exact hold
    by_cases hcurrent : net.current = some other
    · cases h.phase other hcurrent pid with
      | idle hflight hidle =>
        refine ⟨fun hsome => absurd hidle.pending hsome, ?_⟩
        refine pairwise_iff_forall_sublist.mpr fun {o o'} hsub hpublish => ?_
        exact absurd hpublish (hidle.publish o (hsub.subset mem_cons_self))
      | sending flight hflight hreleased hsending => exact hsending.toPast
      | releasing flight hflight hreleased hreleasing =>
        have hgone := hreleasing.gone (h.taken_of_handled (hflights pid flight hflight hreleased))
        refine ⟨fun hsome => absurd hgone.1 hsome, ?_⟩
        refine pairwise_iff_forall_sublist.mpr fun {o o'} hsub hpublish => ?_
        exact absurd hpublish (hgone.2 o (hsub.subset mem_cons_self))
    · exact h.past other hold hcurrent pid

theorem about_of_shake {packet : Packet} (h : packet.shake = none) : packet.about pid = false := by
  simp [Packet.about, h]

theorem about_of_ne {packet : Packet} {pid' : Nat} (h : ∀ shake ∈ packet.shake, shake = .pubrel pid ∨
    ∃ msg, shake = .publish pid msg) (hne : pid' ≠ pid) : packet.about pid' = false := by
  unfold Packet.about
  split
  · rfl
  · next heq =>
    rcases h _ heq with hshake | ⟨msg, hshake⟩
    · cases hshake
    · cases hshake
      simpa using Ne.symm hne
  · next heq =>
    rcases h _ heq with hshake | ⟨msg, hshake⟩
    · cases hshake
      simpa using Ne.symm hne
    · cases hshake

theorem Network.Good.pushes (h : net.Good mine) (hcurrent : net.current = some conn) {o : Offer}
    (htagged : o.packet.shake = none → o.serial = none)
    (hphase : ∀ pid, net.Phase (net.link conn) pid →
      (net.setLink conn (·.push o)).Phase ((net.link conn).push o) pid) :
    (net.setLink conn (·.push o)).Good mine := by
  have hused := h.current conn hcurrent
  refine h.relink (f := (·.push o)) (fun hnew => absurd hused hnew) ?_ rfl rfl (fun _ => hused) (fun _ => hphase)
    (fun _ => rfl) (fun hne => absurd hcurrent hne) h.flight h.distinct h.untaken Nat.le.refl h.completed
  intro o' ho'
  rcases mem_append.mp ho' with hold | hnew
  · exact h.tagged conn o' hold
  · cases mem_singleton.mp hnew
    exact htagged

theorem Network.Good.begins (h : net.Good mine) (hcurrent : net.current = some conn) {o : Offer}
    {msg : Message} (hshake : o.packet.shake = some (.publish pid msg)) (hserial : o.serial = some net.next)
    (hnone : net.flights.get? pid = none) :
    { net.setLink conn (·.push o) with
      flights := net.flights.put pid { serial := net.next, msg }
      next := net.next + 1 }.Good mine := by
  have hused := h.current conn hcurrent
  have hpublish : o.IsPublish pid := ⟨msg, hshake⟩
  have hget {pid' : Nat} {flight : Flight}
      (hflight : (net.flights.put pid { serial := net.next, msg }).get? pid' = some flight) :
      pid' = pid ∧ flight = { serial := net.next, msg } ∨ pid' ≠ pid ∧ net.flights.get? pid' = some flight := by
    rw [get?_put] at hflight
    split at hflight
    · next heq => exact .inl ⟨heq, (Option.some.inj hflight).symm⟩
    · next hne => exact .inr ⟨hne, hflight⟩
  refine h.relink (fun hnew => absurd hused hnew) ?_ rfl rfl (fun _ => hused) (fun _ pid' hphase => ?_)
    (fun hne => absurd hcurrent hne) (fun hne => absurd hcurrent hne) ?_ ?_ ?_ (Nat.le_succ _) h.completed
  · intro o' ho' hnone'
    rcases mem_append.mp ho' with hold | hnew
    · exact h.tagged conn o' hold hnone'
    · cases mem_singleton.mp hnew
      cases hshake.symm.trans hnone'
  · by_cases hpid : pid' = pid
    · subst hpid
      cases hphase with
      | idle hflight hidle =>
        exact .sending { serial := net.next, msg } (get?_put_self ..) rfl
          (hidle.push_publish hpublish hserial)
      | sending flight hflight => cases hnone.symm.trans hflight
      | releasing flight hflight => cases hnone.symm.trans hflight
    · refine hphase.narrow (Link.narrows_push ?_) ?_ (fun _ _ h => h) fun _ h => h
      · refine about_of_ne (fun shake heq => .inr ⟨msg, ?_⟩) hpid
        exact Option.some.inj (heq.symm.trans hshake)
      · exact (get?_put ..).trans (if_neg hpid)
  · intro pid' flight hflight
    rcases hget hflight with ⟨_, rfl⟩ | ⟨_, hold⟩
    · exact Nat.lt_succ_self _
    · exact Nat.lt_succ_of_lt (h.flight pid' flight hold)
  · intro pid₁ pid₂ flight₁ flight₂ hflight₁ hflight₂ heq
    rcases hget hflight₁ with ⟨rfl, rfl⟩ | ⟨_, hold₁⟩ <;> rcases hget hflight₂ with ⟨rfl, rfl⟩ | ⟨_, hold₂⟩
    · rfl
    · exact absurd heq (Nat.ne_of_gt (h.flight pid₂ flight₂ hold₂))
    · exact absurd heq (Nat.ne_of_lt (h.flight pid₁ flight₁ hold₁))
    · exact h.distinct pid₁ pid₂ flight₁ flight₂ hold₁ hold₂ heq
  · intro pid' flight hflight hreleased
    rcases hget hflight with ⟨_, rfl⟩ | ⟨_, hold⟩
    · intro hmem
      exact Nat.lt_irrefl _ (h.taken _ hmem)
    · exact h.untaken pid' flight hold hreleased

theorem Network.Good.offers (h : net.Good mine) (hcurrent : net.current = some conn) {packet : Packet}
    (hmay : net.mayOffer packet = true) : (net.offer conn packet).Good mine := by
  unfold Network.mayOffer at hmay
  unfold Network.offer
  split at hmay
  · next hshake =>
    refine h.pushes hcurrent (fun _ => rfl) fun pid hphase => ?_
    exact hphase.narrow (Link.narrows_push (about_of_shake hshake)) rfl (fun _ _ h => h) fun _ h => h
  · next pid hshake =>
    refine h.pushes hcurrent (fun hnone => by cases hshake.symm.trans hnone) fun pid' hphase => ?_
    by_cases hpid : pid' = pid
    · subst hpid
      cases hphase with
      | idle hflight hidle => simp [hflight] at hmay
      | sending flight hflight hreleased => simp [hflight, hreleased] at hmay
      | releasing flight hflight hreleased hreleasing =>
        exact .releasing flight hflight hreleased (hreleasing.push_pubrel hshake)
    · refine hphase.narrow (Link.narrows_push ?_) rfl (fun _ _ h => h) fun _ h => h
      exact about_of_ne (fun shake heq => .inl (Option.some.inj (heq.symm.trans hshake))) hpid
  · next pid msg hshake =>
    split
    · next flight hflight =>
      refine h.pushes hcurrent (fun hnone => by cases hshake.symm.trans hnone) fun pid' hphase => ?_
      by_cases hpid : pid' = pid
      · subst hpid
        cases hphase with
        | idle hnone hidle => cases hnone.symm.trans hflight
        | sending flight' hflight' hreleased hsending =>
          cases hflight.symm.trans hflight'
          exact .sending flight hflight hreleased (hsending.push_publish ⟨msg, hshake⟩ rfl)
        | releasing flight' hflight' hreleased hreleasing => simp [hflight', hreleased] at hmay
      · refine hphase.narrow (Link.narrows_push ?_) rfl (fun _ _ h => h) fun _ h => h
        refine about_of_ne (fun shake heq => .inr ⟨msg, ?_⟩) hpid
        exact Option.some.inj (heq.symm.trans hshake)
    · next hnone => exact h.begins hcurrent hshake rfl hnone

theorem Network.Good.reflights (h : net.Good mine) (hcurrent : net.current = some conn) {reply : Reply}
    {rest : List Reply} (hanswers : (net.link conn).answers = reply :: rest) (pid : Nat)
    {flights : OrderedMap Nat Flight} {completed : List Nat}
    (hold : ∀ flight, flights.get? pid = some flight → ∃ flight', net.flights.get? pid = some flight' ∧
      flight.serial = flight'.serial ∧ (flight.released = false → flight'.released = false))
    (hrest : ∀ pid' ≠ pid, flights.get? pid' = net.flights.get? pid')
    (hphase : net.Phase (net.link conn) pid →
      { net.setLink conn (·.receive rest) with flights, completed }.Phase ((net.link conn).receive rest) pid)
    (hcompleted : ∀ n ∈ completed, n ∈ net.handled) :
    { net.setLink conn (·.receive rest) with flights, completed }.Good mine := by
  have hget (pid' : Nat) (flight : Flight) (hflight : flights.get? pid' = some flight) :
      ∃ flight', net.flights.get? pid' = some flight' ∧ flight.serial = flight'.serial ∧
        (flight.released = false → flight'.released = false) := by
    by_cases hpid : pid' = pid
    · rw [hpid] at hflight ⊢
      exact hold flight hflight
    · rw [hrest pid' hpid] at hflight
      exact ⟨flight, hflight, rfl, id⟩
  refine h.relink (fun _ => rfl) (h.tagged conn) rfl rfl (fun _ => h.current conn hcurrent) (fun _ pid' hphase' => ?_)
    (fun hne => absurd hcurrent hne) (fun hne => absurd hcurrent hne) ?_ ?_ ?_ Nat.le.refl hcompleted
  · by_cases hpid : pid' = pid
    · rw [hpid] at hphase' ⊢
      exact hphase hphase'
    · exact hphase'.narrow (Link.narrows_receive hanswers pid') (hrest pid' hpid) (fun _ _ h => h) fun _ h => h
  · intro pid' flight hflight
    obtain ⟨flight', hflight', heq, _⟩ := hget pid' flight hflight
    exact heq ▸ h.flight pid' flight' hflight'
  · intro pid₁ pid₂ flight₁ flight₂ hflight₁ hflight₂ heq
    obtain ⟨flight₁', hflight₁', heq₁, _⟩ := hget pid₁ flight₁ hflight₁
    obtain ⟨flight₂', hflight₂', heq₂, _⟩ := hget pid₂ flight₂ hflight₂
    exact h.distinct pid₁ pid₂ flight₁' flight₂' hflight₁' hflight₂' (heq₁.symm.trans (heq.trans heq₂))
  · intro pid' flight hflight hreleased
    obtain ⟨flight', hflight', heq, hfalse⟩ := hget pid' flight hflight
    exact heq ▸ h.untaken pid' flight' hflight' (hfalse hreleased)

theorem Network.Good.receives (h : net.Good mine) (hcurrent : net.current = some conn) :
    (net.receive conn).Good mine := by
  unfold Network.receive
  split
  · exact h
  next reply rest hanswers =>
  have hkeep : (net.setLink conn (·.receive rest)).Good mine := by
    apply h.setLink rfl rfl rfl fun _ => h.current conn hcurrent
    · intro _ pid hphase
      exact hphase.narrow (Link.narrows_receive hanswers pid) rfl (fun _ _ h => h) fun _ h => h
    · exact fun _ pid hpast => hpast.narrow (Link.narrows_receive hanswers pid)
  unfold Network.answered
  split
  · next pid =>
    split
    · exact hkeep
    next flight hflight =>
    change net.flights.get? pid = some flight at hflight
    refine h.reflights hcurrent hanswers pid ?_ (fun pid' hne => ?_) (fun hphase => ?_) h.completed
    · intro flight' hflight'
      cases (get?_put_self ..).symm.trans hflight'
      exact ⟨flight, hflight, rfl, nofun⟩
    · exact (get?_put ..).trans (if_neg hne)
    · refine .releasing { flight with released := true } (get?_put_self ..) rfl ?_
      cases hphase with
      | idle hnone => exact nomatch hnone.symm.trans hflight
      | sending flight' hflight' hreleased hsending =>
        cases hflight.symm.trans hflight'
        exact hsending.receive_pubrec hanswers (h.untaken pid flight hflight hreleased)
      | releasing flight' hflight' hreleased hreleasing =>
        cases hflight.symm.trans hflight'
        exact hreleasing.narrow (Link.narrows_receive hanswers pid) id id
  · next pid =>
    split
    · exact hkeep
    next flight hflight =>
    change net.flights.get? pid = some flight at hflight
    split
    · next hreleased =>
      have hdone : flight.serial ∈ net.handled ∧ ((net.link conn).receive rest).Idle pid := by
        cases h.phase conn hcurrent pid with
        | idle hnone => exact nomatch hnone.symm.trans hflight
        | sending flight' hflight' hfalse =>
          cases hflight.symm.trans hflight'
          exact nomatch hreleased.symm.trans hfalse
        | releasing flight' hflight' _ hreleasing =>
          cases hflight.symm.trans hflight'
          exact hreleasing.receive_pubcomp h.taken_of_handled hanswers
      have hgone : (net.flights.remove pid).get? pid = none := (get?_remove ..).trans (if_pos rfl)
      refine h.reflights hcurrent hanswers pid ?_ (fun pid' hne => ?_) (fun _ => .idle hgone hdone.2) ?_
      · exact fun flight' hflight' => nomatch hgone.symm.trans hflight'
      · exact (get?_remove ..).trans (if_neg hne)
      · intro n hn
        rcases mem_cons.mp hn with rfl | hold
        · exact hdone.1
        · exact h.completed n hold
    · exact hkeep
  · exact hkeep

end Nodra.Mqtt
