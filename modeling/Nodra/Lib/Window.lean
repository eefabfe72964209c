import Mathlib

/-! Events in a window of time.  A trail has hits and clearings, in the order of their
times; a keeper counts the recent hits since the last clearing and lets the next one in
while there is room, where those that were let in but are not yet on record count too.
Then no window without a clearing has more hits than there is room for. -/
namespace Nodra.Window
open List

inductive Mark (T : Type) where
  | hit (time : T)
  | clear (time : T)

variable {T : Type}

def Mark.time : Mark T → T
  | .hit time => time
  | .clear time => time

def Mark.hit? : Mark T → Option T
  | .hit time => some time
  | .clear _ => none

def hits (trail : List (Mark T)) : List T := trail.filterMap Mark.hit?

def since (trail : List (Mark T)) : List T :=
  trail.foldl (fun times mark => mark.hit?.elim [] fun time => times ++ [time]) []

@[simp] theorem hits_cons_hit (t : T) (trail : List (Mark T)) : hits (.hit t :: trail) = t :: hits trail := rfl

@[simp] theorem hits_cons_clear (t : T) (trail : List (Mark T)) : hits (.clear t :: trail) = hits trail := rfl

@[simp] theorem hits_append_hit (trail : List (Mark T)) (t : T) :
    hits (trail ++ [.hit t]) = hits trail ++ [t] := by
  simp [hits, Mark.hit?]

@[simp] theorem hits_append_clear (trail : List (Mark T)) (t : T) :
    hits (trail ++ [.clear t]) = hits trail := by
  simp [hits, Mark.hit?]

@[simp] theorem since_append_hit (trail : List (Mark T)) (t : T) :
    since (trail ++ [.hit t]) = since trail ++ [t] := by
  simp [since, Mark.hit?]

@[simp] theorem since_append_clear (trail : List (Mark T)) (t : T) :
    since (trail ++ [.clear t]) = [] := by
  simp [since, Mark.hit?]

variable [LinearOrder T] {trail : List (Mark T)}

def InOrder (trail : List (Mark T)) : Prop := trail.Pairwise fun a b => a.time ≤ b.time

theorem InOrder.snoc (h : InOrder trail) {mark : Mark T} (hbefore : ∀ m ∈ trail, m.time ≤ mark.time) :
    InOrder (trail ++ [mark]) := by
  refine pairwise_append.mpr ⟨h, pairwise_singleton _ _, fun m hm last hlast => ?_⟩
  rw [mem_singleton.mp hlast]
  exact hbefore m hm

theorem before_snoc {mark : Mark T} (hbefore : ∀ m ∈ trail, m.time ≤ mark.time) :
    ∀ m ∈ trail ++ [mark], m.time ≤ mark.time := by
  intro m hm
  rcases mem_append.mp hm with hm | hm
  · exact hbefore m hm
  · exact (congrArg Mark.time (mem_singleton.mp hm)).le

/-- If there is no clearing from some time on, the hits from then on are since the last clearing. -/
theorem filter_hits_eq_since (horder : InOrder trail) {start : T}
    (hclear : ∀ t, .clear t ∈ trail → t < start) :
    (hits trail).filter (start ≤ ·) = (since trail).filter (start ≤ ·) := by
  induction trail using List.reverseRecOn with
  | nil => rfl
  | append_singleton trail mark ih =>
    obtain ⟨htrail, -, hlast⟩ := pairwise_append.mp horder
    cases mark with
    | hit t =>
      have hrest := ih htrail fun t ht => hclear t (mem_append_left _ ht)
      simp only [hits_append_hit, since_append_hit, filter_append, hrest]
    | clear t =>
      have hbefore : t < start := hclear t (by simp)
      simp only [hits_append_clear, since_append_clear, filter_nil]
      refine filter_eq_nil_iff.mpr fun u hu => ?_
      obtain ⟨mark, hmark, hhit⟩ := mem_filterMap.mp hu
      have hle : mark.time ≤ t := hlast mark hmark (.clear t) (by simp)
      cases mark with
      | clear _ => cases hhit
      | hit _ =>
        cases hhit
        have hlt : u < start := lt_of_le_of_lt hle hbefore
        simpa using hlt

variable [AddCommGroup T] {n waiting waiting' : Nat} {width now clock : T} {fails : List T}

/-- The times that are later than the width of the window before now. -/
def recent (width now : T) (times : List T) : List T := times.filter (now - width < ·)

def Within (n : Nat) (width : T) (trail : List (Mark T)) : Prop :=
  ∀ start, (∀ t, .clear t ∈ trail → ¬ (start ≤ t ∧ t < start + width)) →
    ((hits trail).filter fun t => start ≤ t ∧ t < start + width).length ≤ n

theorem Within.clear (h : Within n width trail) : Within n width (trail ++ [.clear now]) := by
  intro start hclear
  rw [hits_append_clear]
  exact h start fun t ht => hclear t (mem_append_left _ ht)

/-- What a keeper with the list `fails` keeps true, with `waiting` hits let in but not on record. -/
structure Kept (n : Nat) (width : T) (trail : List (Mark T)) (clock : T) (fails : List T) (waiting : Nat) :
    Prop where
  order : InOrder trail
  before : ∀ mark ∈ trail, mark.time ≤ clock
  agrees : recent width clock fails = recent width clock (since trail)
  room : (recent width clock (since trail)).length + waiting ≤ n
  within : Within n width trail

theorem kept_nil (n : Nat) (width clock : T) : Kept n width [] clock [] 0 where
  order := .nil
  before := nofun
  agrees := rfl
  room := Nat.zero_le n
  within := fun _ _ => Nat.zero_le n

theorem Kept.fewer (h : Kept n width trail clock fails waiting) (hle : waiting' ≤ waiting) :
    Kept n width trail clock fails waiting' :=
  { h with room := (Nat.add_le_add_left hle _).trans h.room }

variable [IsOrderedAddMonoid T]

theorem recent_recent (h : clock ≤ now) (times : List T) :
    recent width now (recent width clock times) = recent width now times := by
  unfold recent
  rw [List.filter_filter]
  refine filter_congr fun t _ => ?_
  have hlater : now - width < t → clock - width < t := (sub_le_sub_right h width).trans_lt
  simpa using hlater

theorem Within.hit (h : Within n width trail) (horder : InOrder trail) (hbefore : ∀ mark ∈ trail, mark.time ≤ now)
    (hroom : (recent width now (since trail)).length < n) : Within n width (trail ++ [.hit now]) := by
  intro start hclear
  have hclear' : ∀ t, .clear t ∈ trail → ¬ (start ≤ t ∧ t < start + width) :=
    fun t ht => hclear t (mem_append_left _ ht)
  rw [hits_append_hit, filter_append, length_append]
  by_cases hnow : start ≤ now ∧ now < start + width
  · -- a clearing in the trail is not after the start, as it would lie in the window
    have hcleared : ∀ t, .clear t ∈ trail → t < start := by
      intro t ht
      by_contra hle
      exact hclear' t ht ⟨not_lt.mp hle, (hbefore _ ht).trans_lt hnow.2⟩
    have hhits : ((hits trail).filter fun t => start ≤ t ∧ t < start + width).length ≤
        (recent width now (since trail)).length := by
      calc ((hits trail).filter fun t => start ≤ t ∧ t < start + width).length
          ≤ ((hits trail).filter (start ≤ ·)).length := by
            refine (monotone_filter_right _ fun t ht => ?_).length_le
            simp only [Bool.decide_and, Bool.and_eq_true, decide_eq_true_eq] at ht ⊢
            exact ht.1
        _ = ((since trail).filter (start ≤ ·)).length := by
            rw [filter_hits_eq_since horder hcleared]
        _ ≤ (recent width now (since trail)).length := by
            refine (monotone_filter_right _ fun t ht => ?_).length_le
            simp only [decide_eq_true_eq] at ht ⊢
            exact (sub_lt_iff_lt_add.mpr hnow.2).trans_le ht
    have hone : ([now].filter fun t => start ≤ t ∧ t < start + width).length ≤ 1 :=
      length_filter_le _ _
    omega
  · have hnone : [now].filter (fun t => start ≤ t ∧ t < start + width) = [] := by
      simpa using fun hle => not_lt.mp fun hlt => hnow ⟨hle, hlt⟩
    rw [hnone]
    exact h start hclear'

theorem recent_length_le (h : clock ≤ now) (times : List T) :
    (recent width now times).length ≤ (recent width clock times).length := by
  rw [← recent_recent h]
  exact length_filter_le _ _

theorem Kept.tick (h : Kept n width trail clock fails waiting) (hnow : clock ≤ now) :
    Kept n width trail now fails waiting where
  order := h.order
  before := fun mark hmark => (h.before mark hmark).trans hnow
  agrees := by rw [← recent_recent hnow, h.agrees, recent_recent hnow]
  room := (Nat.add_le_add_right (recent_length_le hnow _) waiting).trans h.room
  within := h.within

theorem Kept.prune (h : Kept n width trail clock fails waiting) (hnow : clock ≤ now) :
    Kept n width trail now (recent width now fails) waiting :=
  { h.tick hnow with agrees := (recent_recent le_rfl fails).trans (h.tick hnow).agrees }

theorem Kept.admit_one (h : Kept n width trail clock fails waiting) (hnow : clock ≤ now)
    (hroom : (recent width now fails).length + waiting < n) :
    Kept n width trail now (recent width now fails) (waiting + 1) :=
  { h.prune hnow with
    room := by
      rw [(h.tick hnow).agrees] at hroom
      exact hroom }

theorem Kept.record (h : Kept n width trail clock fails (waiting + 1)) (hnow : clock ≤ now) :
    Kept n width (trail ++ [.hit now]) now (fails ++ [now]) waiting where
  order := h.order.snoc (h.tick hnow).before
  before := before_snoc (h.tick hnow).before
  agrees := by
    have hagrees := (h.tick hnow).agrees
    simp only [recent, since_append_hit, filter_append] at hagrees ⊢
    rw [hagrees]
  room := by
    have hroom := (h.tick hnow).room
    have hone : ([now].filter (now - width < ·)).length ≤ 1 := length_filter_le _ _
    simp only [recent, since_append_hit, filter_append, length_append] at hroom ⊢
    omega
  within := by
    have hroom := (h.tick hnow).room
    exact h.within.hit h.order (h.tick hnow).before (by omega)

theorem Kept.clear (h : Kept n width trail clock fails waiting) (hnow : clock ≤ now) :
    Kept n width (trail ++ [.clear now]) now [] waiting where
  order := h.order.snoc (h.tick hnow).before
  before := before_snoc (h.tick hnow).before
  agrees := by rw [since_append_clear]
  room := by
    have hroom := h.room
    rw [since_append_clear]
    simp only [recent, filter_nil, length_nil]
    omega
  within := h.within.clear

end Nodra.Window
