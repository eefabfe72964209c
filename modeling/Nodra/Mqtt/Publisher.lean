import Nodra.Mqtt.Broker

/-! A publisher of QoS 2 at the other end of its connections.  What it has sent and received, and
what the broker has made of it, is read off the history. -/
namespace Nodra.Mqtt
open Lines List Option

inductive Shake where
  | publish (pid : Nat) (msg : Message)
  | pubrel (pid : Nat)
deriving DecidableEq

def Packet.shake (packet : Packet) : Option Shake :=
  if packet.typ = 3 then
    match parsePublish packet.flags packet.payload with
    | some (msg, pid) => if msg.qos = 2 then some (.publish pid msg) else none
    | none => none
  else if packet.typ = 6 then (readID packet.payload).map fun read => .pubrel read.1
  else none

structure Offer where
  packet : Packet
  serial : Option Nat

/-- A connection of the publisher, from end to end.  `applied` counts the packets up to the last
one that has held a message back or let one go; `pending` has the number of the PUBLISH of each
message held back; `answers` are on their way to the publisher. -/
structure Link where
  offered : List Offer := []
  reads : Nat := 0
  applied : Nat := 0
  pending : Nat → Option Nat := fun _ => none
  answers : List Reply := []
  taken : List Nat := []
  handled : List Nat := []

structure Flight where
  serial : Nat
  msg : Message
  released : Bool := false

/-- `taken` are the messages that a PUBREL let go, `handled` those that the handler got, and
`completed` those whose PUBCOMP the publisher has. -/
structure Network where
  current : Option Nat := none
  used : List Nat := []
  link : Nat → Link := fun _ => {}
  flights : OrderedMap Nat Flight := .empty
  next : Nat := 0
  taken : List Nat := []
  handled : List Nat := []
  completed : List Nat := []

def Link.serial (l : Link) (index : Nat) : Option Nat := l.offered[index]?.bind Offer.serial

def Packet.about (packet : Packet) (pid : Nat) : Bool :=
  match packet.shake with
  | none => false
  | some (.publish pid' _) => pid' = pid
  | some (.pubrel pid') => pid' = pid

def Reply.about (reply : Reply) (pid : Nat) : Bool := reply = .pubrec pid || reply = .pubcomp pid

def Link.ahead (l : Link) (pid : Nat) : List Offer :=
  (l.offered.drop l.applied).filter (·.packet.about pid)

def Link.back (l : Link) (pid : Nat) : List Reply := l.answers.filter (·.about pid)

def Link.push (l : Link) (offer : Offer) : Link := { l with offered := l.offered ++ [offer] }

def Link.apply (l : Link) (index pid : Nat) (held : Option Nat) : Link :=
  { l with applied := index + 1, pending := Function.update l.pending pid held }

def Link.answer (l : Link) (reply : Reply) : Link := { l with answers := l.answers ++ [reply] }

def Link.receive (l : Link) (rest : List Reply) : Link := { l with answers := rest }

def Network.setLink (net : Network) (conn : Nat) (f : Link → Link) : Network :=
  { net with link := Function.update net.link conn (f (net.link conn)) }

def Network.offer (net : Network) (conn : Nat) (packet : Packet) : Network :=
  match packet.shake with
  | none => net.setLink conn (·.push { packet, serial := none })
  | some (.pubrel pid) => net.setLink conn (·.push { packet, serial := (net.flights.get? pid).map Flight.serial })
  | some (.publish pid msg) =>
    match net.flights.get? pid with
    | some flight => net.setLink conn (·.push { packet, serial := some flight.serial })
    | none =>
      { net.setLink conn (·.push { packet, serial := some net.next }) with
        flights := net.flights.put pid { serial := net.next, msg }
        next := net.next + 1 }

def Network.answered (net : Network) : Reply → Network
  | .pubrec pid =>
    match net.flights.get? pid with
    | none => net
    | some flight => { net with flights := net.flights.put pid { flight with released := true } }
  | .pubcomp pid =>
    match net.flights.get? pid with
    | none => net
    | some flight =>
      if flight.released then
        { net with flights := net.flights.remove pid, completed := flight.serial :: net.completed }
      else net
  | _ => net

def Network.receive (net : Network) (conn : Nat) : Network :=
  match (net.link conn).answers with
  | [] => net
  | reply :: rest => (net.setLink conn (·.receive rest)).answered reply

def Network.take (net : Network) (conn : Nat) : Option Nat → Network
  | none => net
  | some serial =>
    { net.setLink conn fun l => { l with taken := l.taken ++ [serial] } with taken := serial :: net.taken }

def Network.handle (net : Network) (conn : Nat) : Option Nat → Network
  | none => net
  | some serial =>
    { net.setLink conn fun l => { l with handled := l.handled ++ [serial] } with handled := serial :: net.handled }

def Network.see (net : Network) : Observation → Network
  | .client (.moves conn) => { net with current := some conn, used := conn :: net.used }
  | .client (.offers conn packet) => net.offer conn packet
  | .client (.receives conn) => net.receive conn
  | .read conn _ _ => net.setLink conn fun l => { l with reads := l.reads + 1 }
  | .held conn index pid => net.setLink conn (·.apply index pid (some index))
  | .released conn index pid found =>
    (net.setLink conn (·.apply index pid none)).take conn (found.bind (net.link conn).serial)
  | .handled conn index _ _ => net.handle conn ((net.link conn).serial index)
  | .wrote conn (.pubrec pid) => net.setLink conn (·.answer (.pubrec pid))
  | .wrote conn (.pubcomp pid) => net.setLink conn (·.answer (.pubcomp pid))
  | _ => net

def network (history : List Observation) : Network := history.foldl Network.see {}

/-- What the publisher may send: a PUBLISH again as long as there is no PUBREC for it, and a PUBREL
from then on. -/
def Network.mayOffer (net : Network) (packet : Packet) : Bool :=
  match packet.shake with
  | none => true
  | some (.pubrel pid) => (net.flights.get? pid).any Flight.released
  | some (.publish pid msg) => (net.flights.get? pid).all fun flight => !flight.released && flight.msg = msg

section

def Offer.IsPublish (o : Offer) (pid : Nat) : Prop := ∃ msg, o.packet.shake = some (.publish pid msg)

def Offer.IsPubrel (o : Offer) (pid : Nat) : Prop := o.packet.shake = some (.pubrel pid)

structure Link.Past (l : Link) (pid : Nat) : Prop where
  clear : l.pending pid ≠ none → ∀ o ∈ l.ahead pid, ¬o.IsPubrel pid
  order : (l.ahead pid).Pairwise fun o o' => o.IsPublish pid → ¬o'.IsPubrel pid

structure Link.Idle (l : Link) (pid : Nat) : Prop where
  publish : ∀ o ∈ l.ahead pid, ¬o.IsPublish pid
  pubrec : .pubrec pid ∉ l.back pid
  pending : l.pending pid = none

structure Link.Carries (l : Link) (pid serial : Nat) : Prop where
  publish : ∀ o ∈ l.ahead pid, o.IsPublish pid → o.serial = some serial
  pending : ∀ index, l.pending pid = some index → l.serial index = some serial

structure Link.Sending (l : Link) (pid serial : Nat) : Prop extends l.Carries pid serial, l.Past pid where
  pubrec : .pubrec pid ∈ l.back pid → l.pending pid ≠ none
  answers : (l.back pid).Pairwise fun a a' => a = .pubrec pid → a' ≠ .pubcomp pid

structure Link.Releasing (l : Link) (pid serial : Nat) (taken handled : List Nat) : Prop
    extends l.Carries pid serial where
  pubcomp : .pubcomp pid ∈ l.back pid → serial ∈ handled
  kept : serial ∈ handled ∨ serial ∈ l.taken ∨ l.pending pid ≠ none
  gone : serial ∈ taken → l.pending pid = none ∧ ∀ o ∈ l.ahead pid, ¬o.IsPublish pid
  order : (l.ahead pid).Pairwise fun o o' => o.IsPubrel pid → ¬o'.IsPublish pid
  answers : (l.back pid).Pairwise fun a a' => a = .pubcomp pid → a' ≠ .pubrec pid

structure Link.Narrows (pid : Nat) (l l' : Link) : Prop where
  ahead : (l'.ahead pid).Sublist (l.ahead pid)
  back : (l'.back pid).Sublist (l.back pid)
  pending : l'.pending pid = l.pending pid
  serial : ∀ index n, l.serial index = some n → l'.serial index = some n
  taken : ∀ n ∈ l.taken, n ∈ l'.taken

variable {l l' : Link} {pid serial : Nat} {taken taken' handled handled' : List Nat}

theorem Link.Narrows.refl (pid : Nat) (l : Link) : l.Narrows pid l :=
  ⟨.refl _, .refl _, rfl, fun _ _ h => h, fun _ h => h⟩

theorem Link.Past.narrow (h : l.Past pid) (hl : l.Narrows pid l') : l'.Past pid where
  clear := by
    intro hpending o ho
    rw [hl.pending] at hpending
    exact h.clear hpending o (hl.ahead.subset ho)
  order := h.order.sublist hl.ahead

theorem Link.Idle.narrow (h : l.Idle pid) (hl : l.Narrows pid l') : l'.Idle pid where
  publish := fun o ho => h.publish o (hl.ahead.subset ho)
  pubrec := fun ha => h.pubrec (hl.back.subset ha)
  pending := hl.pending.trans h.pending

theorem Link.Carries.narrow (h : l.Carries pid serial) (hl : l.Narrows pid l') : l'.Carries pid serial where
  publish := fun o ho => h.publish o (hl.ahead.subset ho)
  pending := by
    intro index hpending
    rw [hl.pending] at hpending
    exact hl.serial index serial (h.pending index hpending)

theorem Link.Sending.narrow (h : l.Sending pid serial) (hl : l.Narrows pid l') : l'.Sending pid serial where
  toCarries := h.toCarries.narrow hl
  toPast := h.toPast.narrow hl
  pubrec := by
    intro ha
    rw [hl.pending]
    exact h.pubrec (hl.back.subset ha)
  answers := h.answers.sublist hl.back

theorem Link.Releasing.narrow (h : l.Releasing pid serial taken handled) (hl : l.Narrows pid l')
    (htaken : serial ∈ taken' → serial ∈ taken) (hhandled : serial ∈ handled → serial ∈ handled') :
    l'.Releasing pid serial taken' handled' where
  toCarries := h.toCarries.narrow hl
  pubcomp := fun ha => hhandled (h.pubcomp (hl.back.subset ha))
  kept := by
    rw [hl.pending]
    exact h.kept.imp hhandled (Or.imp_left (hl.taken serial))
  gone := by
    intro hmem
    obtain ⟨hpending, hahead⟩ := h.gone (htaken hmem)
    exact ⟨hl.pending.trans hpending, fun o ho => hahead o (hl.ahead.subset ho)⟩
  order := h.order.sublist hl.ahead
  answers := h.answers.sublist hl.back

end

section

variable {l : Link} {index pid pid' serial : Nat} {held : Option Nat} {o : Offer} {taken handled : List Nat}

theorem Link.ahead_apply (hle : l.applied ≤ index) : ((l.apply index pid' held).ahead pid).Sublist (l.ahead pid) :=
  (drop_sublist_drop_left l.offered (Nat.le_succ_of_le hle)).filter _

theorem Link.narrows_apply (hle : l.applied ≤ index) (hpending : (l.apply index pid' held).pending pid = l.pending pid) :
    l.Narrows pid (l.apply index pid' held) where
  ahead := Link.ahead_apply hle
  back := .refl _
  pending := hpending
  serial := fun _ _ h => h
  taken := fun _ h => h

theorem Link.apply_pending_of_ne (h : pid ≠ pid') : (l.apply index pid' held).pending pid = l.pending pid :=
  Function.update_of_ne h ..

theorem Link.apply_pending_self : (l.apply index pid held).pending pid = held :=
  Function.update_self ..

theorem Link.ahead_eq_append (held : Option Nat) (hle : l.applied ≤ index) (ho : l.offered[index]? = some o)
    (habout : o.packet.about pid = true) :
    ∃ before, l.ahead pid = before ++ o :: (l.apply index pid held).ahead pid := by
  obtain ⟨hlt, hget⟩ := List.getElem?_eq_some_iff.mp ho
  have hdrop : l.offered.drop index = o :: l.offered.drop (index + 1) := by
    rw [← hget]
    exact drop_eq_getElem_cons hlt
  have hsplit : l.offered.drop l.applied =
      (l.offered.drop l.applied).take (index - l.applied) ++ o :: l.offered.drop (index + 1) := by
    rw [← hdrop]
    have h := (take_append_drop (index - l.applied) (l.offered.drop l.applied)).symm
    rwa [drop_drop, Nat.add_sub_cancel' hle] at h
  unfold Link.ahead
  rw [hsplit, filter_append, filter_cons, if_pos habout]
  exact ⟨_, rfl⟩

theorem Offer.IsPublish.about (h : o.IsPublish pid) : o.packet.about pid = true := by
  obtain ⟨msg, hshake⟩ := h
  simp [Packet.about, hshake]

theorem Offer.IsPubrel.about (h : o.IsPubrel pid) : o.packet.about pid = true := by
  unfold IsPubrel at h
  simp [Packet.about, h]

theorem Link.mem_ahead (hle : l.applied ≤ index) (ho : l.offered[index]? = some o)
    (habout : o.packet.about pid = true) : o ∈ l.ahead pid := by
  obtain ⟨before, heq⟩ := Link.ahead_eq_append none hle ho habout
  simp [heq]

theorem Link.after_applied {R : Offer → Offer → Prop} (hle : l.applied ≤ index) (ho : l.offered[index]? = some o)
    (habout : o.packet.about pid = true) (horder : (l.ahead pid).Pairwise R) :
    ∀ o' ∈ (l.apply index pid held).ahead pid, R o o' := by
  obtain ⟨before, heq⟩ := Link.ahead_eq_append held hle ho habout
  rw [heq, pairwise_append] at horder
  exact (pairwise_cons.mp horder.2.1).1

theorem Link.Past.hold (h : l.Past pid) (hle : l.applied ≤ index) (ho : l.offered[index]? = some o)
    (hpublish : o.IsPublish pid) : (l.apply index pid (some index)).Past pid where
  clear := fun _ o' ho' => Link.after_applied hle ho hpublish.about h.order o' ho' hpublish
  order := h.order.sublist (Link.ahead_apply hle)

theorem Link.Sending.hold (h : l.Sending pid serial) (hle : l.applied ≤ index) (ho : l.offered[index]? = some o)
    (hpublish : o.IsPublish pid) : (l.apply index pid (some index)).Sending pid serial where
  publish := fun o' ho' => h.publish o' ((Link.ahead_apply hle).subset ho')
  pending := by
    intro index' hindex
    rw [Link.apply_pending_self] at hindex
    cases hindex
    change l.offered[index]?.bind Offer.serial = _
    rw [ho]
    exact h.publish o (Link.mem_ahead hle ho hpublish.about) hpublish
  toPast := h.toPast.hold hle ho hpublish
  pubrec := by
    intro _
    rw [Link.apply_pending_self]
    exact some_ne_none index
  answers := h.answers

theorem Link.Releasing.hold (h : l.Releasing pid serial taken handled) (hle : l.applied ≤ index)
    (ho : l.offered[index]? = some o) (hpublish : o.IsPublish pid) :
    (l.apply index pid (some index)).Releasing pid serial taken handled := by
  have hahead : o ∈ l.ahead pid := Link.mem_ahead hle ho hpublish.about
  refine
    { publish := fun o' ho' => h.publish o' ((Link.ahead_apply hle).subset ho')
      pending := ?_
      pubcomp := h.pubcomp
      kept := ?_
      gone := ?_
      order := h.order.sublist (Link.ahead_apply hle)
      answers := h.answers }
  · intro index' hindex
    rw [Link.apply_pending_self] at hindex
    cases hindex
    change l.offered[index]?.bind Offer.serial = _
    rw [ho]
    exact h.publish o hahead hpublish
  · rw [Link.apply_pending_self]
    exact .inr (.inr (some_ne_none index))
  · intro htaken
    exact absurd hpublish ((h.gone htaken).2 o hahead)

theorem Link.Releasing.take (h : l.Releasing pid serial taken handled) (hle : l.applied ≤ index)
    (ho : l.offered[index]? = some o) (hpubrel : o.IsPubrel pid) :
    { l.apply index pid none with taken := l.taken ++ [serial] }.Releasing pid serial (serial :: taken) handled := by
  have hsublist : ((l.apply index pid none).ahead pid).Sublist (l.ahead pid) := Link.ahead_apply hle
  refine
    { publish := fun o' ho' => h.publish o' (hsublist.subset ho')
      pending := ?_
      pubcomp := h.pubcomp
      kept := .inr (.inl (mem_append_right _ mem_cons_self))
      gone := ?_
      order := h.order.sublist hsublist
      answers := h.answers }
  · intro index' hindex
    rw [Link.apply_pending_self] at hindex
    cases hindex
  · intro _
    have hnone : (l.apply index pid none).pending pid = none := Link.apply_pending_self
    have hafter : ∀ o' ∈ (l.apply index pid none).ahead pid, o.IsPubrel pid → ¬o'.IsPublish pid :=
      Link.after_applied hle ho hpubrel.about h.order
    exact ⟨hnone, fun o' ho' => hafter o' ho' hpubrel⟩

end

section

variable {l : Link} {pid serial : Nat} {reply : Reply} {rest : List Reply} {taken handled : List Nat}

theorem Link.back_answer (l : Link) (reply : Reply) (pid : Nat) :
    (l.answer reply).back pid = l.back pid ++ [reply].filter (·.about pid) :=
  filter_append l.answers [reply]

theorem Link.back_answer_self (h : reply.about pid = true) : (l.answer reply).back pid = l.back pid ++ [reply] := by
  rw [Link.back_answer, filter_cons, if_pos h, filter_nil]

theorem Link.narrows_answer (h : reply.about pid = false) : l.Narrows pid (l.answer reply) where
  ahead := .refl _
  back := by
    rw [Link.back_answer, filter_cons, if_neg (Bool.eq_false_iff.mp h), filter_nil, append_nil]
  pending := rfl
  serial := fun _ _ h => h
  taken := fun _ h => h

theorem Link.Sending.answer_pubrec (h : l.Sending pid serial) (hpending : l.pending pid ≠ none) :
    (l.answer (.pubrec pid)).Sending pid serial where
  toCarries := { h.toCarries with }
  toPast := { h.toPast with }
  pubrec := fun _ => hpending
  answers := by
    rw [Link.back_answer_self (by simp [Reply.about]), pairwise_append]
    exact ⟨h.answers, pairwise_singleton .., by simp⟩

theorem Link.Releasing.answer_pubrec (h : l.Releasing pid serial taken handled)
    (hhandled : serial ∈ handled → serial ∈ taken) (hpending : l.pending pid ≠ none) :
    (l.answer (.pubrec pid)).Releasing pid serial taken handled := by
  have hnone : .pubcomp pid ∉ l.back pid := fun hmem => hpending (h.gone (hhandled (h.pubcomp hmem))).1
  have hback : (l.answer (.pubrec pid)).back pid = l.back pid ++ [.pubrec pid] :=
    Link.back_answer_self (by simp [Reply.about])
  refine { h with pubcomp := ?_, answers := ?_ }
  · rw [hback, mem_append]
    rintro (hmem | hmem)
    · exact absurd hmem hnone
    · simp at hmem
  · rw [hback, pairwise_append]
    refine ⟨h.answers, pairwise_singleton .., fun a ha _ _ heq => ?_⟩
    rw [heq] at ha
    exact absurd ha hnone

theorem Link.Idle.answer_pubcomp (h : l.Idle pid) : (l.answer (.pubcomp pid)).Idle pid where
  publish := h.publish
  pubrec := by
    rw [Link.back_answer_self (by simp [Reply.about])]
    simpa using h.pubrec
  pending := h.pending

theorem Link.Sending.answer_pubcomp (h : l.Sending pid serial) (hpending : l.pending pid = none) :
    (l.answer (.pubcomp pid)).Sending pid serial := by
  have hnone : .pubrec pid ∉ l.back pid := fun hmem => h.pubrec hmem hpending
  have hback : (l.answer (.pubcomp pid)).back pid = l.back pid ++ [.pubcomp pid] :=
    Link.back_answer_self (by simp [Reply.about])
  refine { h with pubrec := ?_, answers := ?_ }
  · rw [hback, mem_append]
    rintro (hmem | hmem)
    · exact absurd hmem hnone
    · simp at hmem
  · rw [hback, pairwise_append]
    refine ⟨h.answers, pairwise_singleton .., fun a ha _ _ heq => ?_⟩
    rw [heq] at ha
    exact absurd ha hnone

theorem Link.Releasing.answer_pubcomp (h : l.Releasing pid serial taken handled) (hpending : l.pending pid = none)
    (htaken : ∀ n ∈ l.taken, n ∈ handled) : (l.answer (.pubcomp pid)).Releasing pid serial taken handled where
  toCarries := { h.toCarries with }
  pubcomp := by
    intro _
    rcases h.kept with hhandled | hmem | hne
    · exact hhandled
    · exact htaken serial hmem
    · exact absurd hpending hne
  kept := h.kept
  gone := h.gone
  order := h.order
  answers := by
    rw [Link.back_answer_self (by simp [Reply.about]), pairwise_append]
    exact ⟨h.answers, pairwise_singleton .., by simp⟩

theorem Link.narrows_receive (h : l.answers = reply :: rest) (pid : Nat) : l.Narrows pid (l.receive rest) where
  ahead := .refl _
  back := by
    unfold Link.back
    rw [h]
    exact (sublist_cons_self reply rest).filter _
  pending := rfl
  serial := fun _ _ h => h
  taken := fun _ h => h

theorem Link.back_of_answers (h : l.answers = reply :: rest) (habout : reply.about pid = true) :
    l.back pid = reply :: (l.receive rest).back pid := by
  unfold Link.back
  rw [h, filter_cons, if_pos habout]
  rfl

theorem Link.Sending.receive_pubrec (h : l.Sending pid serial) (hanswers : l.answers = .pubrec pid :: rest)
    (htaken : serial ∉ taken) : (l.receive rest).Releasing pid serial taken handled := by
  have hback : l.back pid = _ := Link.back_of_answers hanswers (by simp [Reply.about])
  have hpending : l.pending pid ≠ none := h.pubrec (hback ▸ mem_cons_self)
  have hpairs := h.answers
  rw [hback, pairwise_cons] at hpairs
  have hnone : .pubcomp pid ∉ (l.receive rest).back pid := fun hmem => hpairs.1 _ hmem rfl rfl
  refine { h.toCarries.narrow (Link.narrows_receive hanswers pid) with
    pubcomp := fun hmem => absurd hmem hnone
    kept := .inr (.inr hpending)
    gone := fun hmem => absurd hmem htaken
    order := ?_
    answers := ?_ }
  · refine pairwise_iff_forall_sublist.mpr fun {o o'} hsub hpubrel => ?_
    exact absurd hpubrel (h.clear hpending o (hsub.subset mem_cons_self))
  · refine pairwise_iff_forall_sublist.mpr fun {a a'} hsub heq => ?_
    rw [heq] at hsub
    exact absurd (hsub.subset mem_cons_self) hnone

theorem Link.Releasing.receive_pubcomp (h : l.Releasing pid serial taken handled)
    (hhandled : serial ∈ handled → serial ∈ taken) (hanswers : l.answers = .pubcomp pid :: rest) :
    serial ∈ handled ∧ (l.receive rest).Idle pid := by
  have hback : l.back pid = _ := Link.back_of_answers hanswers (by simp [Reply.about])
  have hmem : serial ∈ handled := h.pubcomp (hback ▸ mem_cons_self)
  have hgone := h.gone (hhandled hmem)
  have hpairs := h.answers
  rw [hback, pairwise_cons] at hpairs
  exact ⟨hmem, { publish := hgone.2, pubrec := fun hpubrec => hpairs.1 _ hpubrec rfl rfl, pending := hgone.1 }⟩

end

section

variable {l : Link} {pid serial : Nat} {o : Offer} {taken handled : List Nat}

theorem Link.ahead_push (l : Link) (o : Offer) (pid : Nat) :
    ((l.push o).ahead pid).Sublist (l.ahead pid ++ [o].filter (·.packet.about pid)) := by
  unfold Link.ahead Link.push
  rw [drop_append, filter_append]
  exact (List.Sublist.refl _).append ((drop_sublist _ _).filter _)

theorem Link.ahead_push_self (h : o.packet.about pid = true) :
    ((l.push o).ahead pid).Sublist (l.ahead pid ++ [o]) := by
  have hsub := Link.ahead_push l o pid
  rwa [filter_cons, if_pos h, filter_nil] at hsub

theorem Link.serial_push {index n : Nat} (h : l.serial index = some n) : (l.push o).serial index = some n := by
  obtain ⟨o', ho', hserial⟩ := bind_eq_some_iff.mp h
  have hlt := (List.getElem?_eq_some_iff.mp ho').1
  refine bind_eq_some_iff.mpr ⟨o', ?_, hserial⟩
  exact (getElem?_append_left hlt).trans ho'

theorem Link.narrows_push (h : o.packet.about pid = false) : l.Narrows pid (l.push o) where
  ahead := by
    have hsub := Link.ahead_push l o pid
    rwa [filter_cons, if_neg (Bool.eq_false_iff.mp h), filter_nil, append_nil] at hsub
  back := .refl _
  pending := rfl
  serial := fun _ _ h => Link.serial_push h
  taken := fun _ h => h

theorem Link.carries_push (h : ∀ o ∈ l.ahead pid, o.IsPublish pid → o.serial = some serial)
    (hpending : ∀ index, l.pending pid = some index → l.serial index = some serial)
    (ho : o.packet.about pid = true) (hserial : o.IsPublish pid → o.serial = some serial) :
    (l.push o).Carries pid serial where
  publish := by
    intro o' ho' hpublish
    rcases mem_append.mp ((Link.ahead_push_self ho).subset ho') with hmem | hmem
    · exact h o' hmem hpublish
    · cases mem_singleton.mp hmem
      exact hserial hpublish
  pending := fun index hindex => Link.serial_push (hpending index hindex)

theorem Link.Idle.push_publish (h : l.Idle pid) (ho : o.IsPublish pid) (hserial : o.serial = some serial) :
    (l.push o).Sending pid serial where
  toCarries := by
    refine Link.carries_push (fun o' ho' hpublish => absurd hpublish (h.publish o' ho')) ?_ ho.about fun _ => hserial
    intro index hindex
    rw [h.pending] at hindex
    cases hindex
  clear := fun hne => absurd h.pending hne
  order := by
    refine List.Pairwise.sublist (Link.ahead_push_self ho.about) (pairwise_append.mpr ⟨?_, ?_, ?_⟩)
    · refine pairwise_iff_forall_sublist.mpr fun {o' _} hsub hpublish => ?_
      exact absurd hpublish (h.publish o' (hsub.subset mem_cons_self))
    · exact pairwise_singleton ..
    · exact fun o' ho' _ _ hpublish => absurd hpublish (h.publish o' ho')
  pubrec := fun hmem => absurd hmem h.pubrec
  answers := by
    refine pairwise_iff_forall_sublist.mpr fun {a a'} hsub heq => ?_
    rw [heq] at hsub
    exact absurd (hsub.subset mem_cons_self) h.pubrec

theorem Link.Sending.push_publish (h : l.Sending pid serial) (ho : o.IsPublish pid)
    (hserial : o.serial = some serial) : (l.push o).Sending pid serial := by
  have hpubrel : ¬o.IsPubrel pid := by
    obtain ⟨msg, hshake⟩ := ho
    exact fun hpubrel => nomatch hpubrel.symm.trans hshake
  refine { Link.carries_push h.publish h.pending ho.about fun _ => hserial with
    clear := ?_
    order := ?_
    pubrec := h.pubrec
    answers := h.answers }
  · intro hne o' ho'
    rcases mem_append.mp ((Link.ahead_push_self ho.about).subset ho') with hmem | hmem
    · exact h.clear hne o' hmem
    · cases mem_singleton.mp hmem
      exact hpubrel
  · refine List.Pairwise.sublist (Link.ahead_push_self ho.about) (pairwise_append.mpr ⟨h.order, ?_, ?_⟩)
    · exact pairwise_singleton ..
    · intro o' _ o'' ho'' _
      cases mem_singleton.mp ho''
      exact hpubrel

theorem Link.Releasing.push_pubrel (h : l.Releasing pid serial taken handled) (ho : o.IsPubrel pid) :
    (l.push o).Releasing pid serial taken handled := by
  have hpublish : ¬o.IsPublish pid := by
    rintro ⟨msg, hshake⟩
    exact nomatch ho.symm.trans hshake
  refine { Link.carries_push h.publish h.pending ho.about fun hp => absurd hp hpublish with
    pubcomp := h.pubcomp
    kept := h.kept
    gone := ?_
    order := ?_
    answers := h.answers }
  · intro hmem
    obtain ⟨hpending, hahead⟩ := h.gone hmem
    refine ⟨hpending, fun o' ho' => ?_⟩
    rcases mem_append.mp ((Link.ahead_push_self ho.about).subset ho') with hold | hnew
    · exact hahead o' hold
    · cases mem_singleton.mp hnew
      exact hpublish
  · refine List.Pairwise.sublist (Link.ahead_push_self ho.about) (pairwise_append.mpr ⟨h.order, ?_, ?_⟩)
    · exact pairwise_singleton ..
    · intro o' _ o'' ho'' _
      cases mem_singleton.mp ho''
      exact hpublish

end

end Nodra.Mqtt
