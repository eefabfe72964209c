import Nodra.Queue.Durability

/-! The byte total and the limits of a queue.  The total is kept by differences, so it is right as
long as a put under drop-oldest does not evict the entry that it overwrites.  A put that is refused
under drop-oldest has evicted everything before. -/
namespace Nodra.Queue
open Lines JsonText Relation List OrderedMap

variable {T : Type}

section

variable {codec : Codec T} {cut : Option Nat} {q q' : Queue T} {r : Record} {fuel : Nat}

theorem appendLocked_ok (h : q.appendLocked codec cut r = .ok q') :
    q'.toContents = q.toContents ∧ q'.settings = q.settings := by
  unfold appendLocked at h
  cases cut with
  | some written => cases h
  | none =>
    dsimp only at h
    split at h <;> cases h <;> exact ⟨rfl, rfl⟩

theorem appendLocked_error {err : Error}
    (h : q.appendLocked codec cut r = .error (err, q')) : err = .write := by
  unfold appendLocked at h
  cases cut with
  | some written =>
    cases h
    rfl
  | none =>
    dsimp only at h
    split at h <;> cases h

theorem appendLocked_error_contents {err : Error}
    (h : q.appendLocked codec cut r = .error (err, q')) : q'.toContents = q.toContents := by
  unfold appendLocked at h
  cases cut with
  | some written =>
    cases h
    rfl
  | none =>
    dsimp only at h
    split at h <;> cases h

theorem exists_appendLocked (codec : Codec T) (q : Queue T) (r : Record) :
    ∃ q', q.appendLocked codec none r = .ok q' := by
  simp only [appendLocked]
  split
  · exact ⟨_, rfl⟩
  · exact ⟨_, rfl⟩

theorem dropOldest_ok {addItems addBytes : Int} {cut cut' : Option Cut}
    (h : q.dropOldest codec addItems addBytes fuel cut = .ok (q', cut')) :
    q'.toContents = q.commitAll codec (q.dropping codec q.settings addItems addBytes fuel) ∧
      q'.settings = q.settings := by
  induction fuel generalizing q cut with
  | zero =>
    cases h
    exact ⟨rfl, rfl⟩
  | succ fuel ih =>
    unfold dropOldest at h
    unfold Contents.dropping
    by_cases hover : q.overLimit q.settings addItems addBytes ∧ q.items.size > 0
    · rw [if_pos hover] at h ⊢
      dsimp only at h
      split at h
      · cases h
      · next q₁ happend =>
        obtain ⟨hcontents, hsettings⟩ := appendLocked_ok happend
        obtain ⟨hlast, hsame⟩ := ih h
        dsimp only at hlast hsame
        rw [hcontents, hsettings] at hlast
        exact ⟨hlast, hsame.trans hsettings⟩
    · rw [if_neg hover] at h ⊢
      cases h
      exact ⟨rfl, rfl⟩

theorem dropOldest_error {addItems addBytes : Int} {cut : Option Cut}
    {err : Error} (h : q.dropOldest codec addItems addBytes fuel cut = .error (err, q')) :
    err = .write := by
  induction fuel generalizing q cut with
  | zero => cases h
  | succ fuel ih =>
    unfold dropOldest at h
    split at h
    · dsimp only at h
      split at h
      · next failed happend =>
        cases h
        exact appendLocked_error happend
      · exact ih h
    · cases h

theorem exists_dropOldest (codec : Codec T) (addItems addBytes : Int) (fuel : Nat) (q : Queue T) :
    ∃ q', q.dropOldest codec addItems addBytes fuel none = .ok (q', none) := by
  induction fuel generalizing q with
  | zero => exact ⟨q, rfl⟩
  | succ fuel ih =>
    unfold dropOldest
    split
    · obtain ⟨q₁, happend⟩ := exists_appendLocked codec { q with toContents := q.bump }
        (delRecord q.oldestIDLocked q.bump.seq)
      dsimp only [Cut.here, Cut.later]
      rw [happend]
      exact ih _
    · exact ⟨q, rfl⟩

theorem makeRoom_none (codec : Codec T) (q : Queue T) (id : Bytes) (v : T) :
    ∃ q', q'.toContents = q.commitAll codec (q.evictions codec q.settings id v) ∧
      q'.settings = q.settings ∧ q.makeRoom codec none (q.addItems id) (q.addBytes codec id v) =
        if q.stillFull codec q.settings id v then .error (.full, q') else .ok (q', none) := by
  unfold makeRoom Contents.stillFull
  by_cases hover : q.overLimit q.settings (q.addItems id) (q.addBytes codec id v) = true
  · rw [if_pos hover]
    cases hpolicy : q.settings.policy with
    | reject => exact ⟨q, by simp [Contents.evictions, hpolicy], rfl, by simp [Contents.evictions, hpolicy, hover]⟩
    | dropNewest =>
      exact ⟨q, by simp [Contents.evictions, hpolicy], rfl, by simp [Contents.evictions, hpolicy, hover]⟩
    | dropOldest =>
      obtain ⟨q₁, hloop⟩ := exists_dropOldest codec (q.addItems id) (q.addBytes codec id v) q.items.size q
      obtain ⟨hcontents, hsettings⟩ := dropOldest_ok hloop
      refine ⟨q₁, by rw [hcontents, Contents.evictions, if_pos hpolicy], hsettings, ?_⟩
      dsimp only
      rw [hloop, Contents.evictions, if_pos hpolicy, ← hcontents, ← hsettings]
  · have hnil : q.evictions codec q.settings id v = [] := by
      simp only [Bool.not_eq_true] at hover
      unfold Contents.evictions
      rw [dropping_of_not_overLimit codec _ _ _ _ _ hover, ite_self]
    exact ⟨q, by rw [hnil, commitAll_nil], rfl, by rw [if_neg hover, hnil, commitAll_nil, if_neg hover]⟩

theorem call_none (codec : Codec T) (q : Queue T) (call : Call T) :
    ∃ q', q.call codec none call = report (q.refusal codec call) q' ∧
      q'.toContents = q.commitAll codec (q.changes codec call) ∧ q'.settings = q.settings := by
  cases call with
  | delete id =>
    simp only [Queue.call, delete, changes, refusal, report]
    split
    · obtain ⟨q₁, happend⟩ := exists_appendLocked codec { q with toContents := q.bump } (delRecord id q.bump.seq)
      obtain ⟨hcontents, hsettings⟩ := appendLocked_ok happend
      dsimp only [Cut.here]
      rw [happend]
      refine ⟨_, rfl, ?_, hsettings⟩
      dsimp only
      rw [hcontents]
      rfl
    · exact ⟨q, rfl, rfl, rfl⟩
  | put id v =>
    by_cases hid : id = []
    · exact ⟨q, by simp only [Queue.call, put, refusal, if_pos hid, report], by simp [changes, hid], rfl⟩
    obtain ⟨q₁, hcontents, hsettings, hroom⟩ := makeRoom_none codec q id v
    simp only [Queue.call, put, changes, refusal, if_neg hid]
    rw [hroom]
    by_cases hfull : q.stillFull codec q.settings id v = true
    · rw [if_pos hfull]
      exact ⟨q₁, by rw [if_pos hfull]; rfl, by rw [if_pos hfull]; exact hcontents, hsettings⟩
    · rw [if_neg hfull]
      obtain ⟨q₂, happend⟩ := exists_appendLocked codec { q₁ with toContents := q₁.bump }
        (putRecord codec id q₁.bump.seq v)
      obtain ⟨hcontents₂, hsettings₂⟩ := appendLocked_ok happend
      dsimp only [Cut.here]
      rw [happend, if_neg hfull, if_neg hfull]
      refine ⟨_, rfl, ?_, hsettings₂.trans hsettings⟩
      dsimp only
      rw [hcontents₂, commitAll_append, ← hcontents]
      rfl

end

section

def Part (q base : Queue T) : Prop := ∀ id e, q.items.get? id = some e → base.items.get? id = some e

def cleared : Outcome T (Queue T × Option Cut) → Queue T
  | .ok (q, _) => q
  | .error (_, q) => q

theorem part_dropOldest (codec : Codec T) (addItems addBytes : Int) (fuel : Nat) (cut : Option Cut) (q : Queue T) :
    Part (cleared (q.dropOldest codec addItems addBytes fuel cut)) q := by
  induction fuel generalizing q cut with
  | zero => exact fun _ _ => id
  | succ fuel ih =>
    unfold dropOldest
    split
    · dsimp only
      split
      · next failed happend =>
        intro id e hget
        rw [cleared, appendLocked_error_contents happend] at hget
        exact hget
      · next q₁ happend =>
        intro id e hget
        have hdrop := ih _ _ id e hget
        simp only [Contents.drop, (appendLocked_ok happend).1, get?_remove] at hdrop
        split at hdrop
        · cases hdrop
        · exact hdrop
    · exact fun _ _ => id

theorem part_makeRoom (codec : Codec T) (cut : Option Cut) (q : Queue T) (addItems addBytes : Int) :
    Part (cleared (q.makeRoom codec cut addItems addBytes)) q := by
  unfold makeRoom
  split
  · split
    · exact fun _ _ => id
    · have hloop := part_dropOldest codec addItems addBytes q.items.size cut q
      split
      · next heq =>
        rw [heq] at hloop
        exact hloop
      · next heq =>
        rw [heq] at hloop
        split <;> exact hloop
    · exact fun _ _ => id
  · exact fun _ _ => id

variable {codec : Codec T} {cut : Option Cut} {q q' : Queue T} {v : T}

theorem part_of_put_error {id : Bytes} {err : Error}
    (h : q.put codec cut id v = .error (err, q')) : Part q' q := by
  unfold put at h
  split at h
  · cases h
    exact fun _ _ h => h
  · have hroom := part_makeRoom codec cut q (q.addItems id) (q.addBytes codec id v)
    dsimp only at h
    split at h
    · next heq =>
      cases h
      rw [heq] at hroom
      exact hroom
    · next heq =>
      rw [heq] at hroom
      split at h
      · next happend =>
        cases h
        intro key e hget
        rw [appendLocked_error_contents happend] at hget
        exact hroom key e hget
      · cases h

theorem get_of_put {id : Bytes} (h : q.put codec cut id v = .ok q') : q'.get id = some v := by
  unfold put at h
  split at h
  · cases h
  · dsimp only at h
    split at h
    · cases h
    · split at h
      · cases h
      · cases h
        simp only [Contents.get, Contents.set, get?_put_self, Option.map_some]

end

section

def Contents.stored (c : Contents T) : Int := c.items.total Entry.bytes

structure Accounted (c : Contents T) : Prop where
  bytes : c.bytes = c.stored
  nonneg : ∀ e ∈ c.items.values, 0 ≤ e.bytes

theorem bytesOf_eq (c : Contents T) (id : Bytes) : c.bytesOf id = c.items.weightOf Entry.bytes id := by
  unfold Contents.bytesOf OrderedMap.weightOf
  cases c.items.get? id <;> rfl

variable {c : Contents T} {codec : Codec T} {wal : Option Bytes}

theorem Accounted.drop (h : Accounted c) (id : Bytes) : Accounted (c.drop id) where
  bytes := by
    rw [Contents.stored, Contents.drop, total_remove, ← bytesOf_eq, h.bytes]
    rfl
  nonneg := fun e he => h.nonneg e ((values_remove_sublist _ id).subset he)

theorem Accounted.set (h : Accounted c) (id : Bytes) (seq : Nat) (v : T) {size : Int}
    (hsize : 0 ≤ size) : Accounted (c.set id seq v size (c.bytesOf id)) where
  bytes := by
    rw [Contents.stored, Contents.set, total_put, ← bytesOf_eq, h.bytes]
    rfl
  nonneg := by
    intro e he
    rw [Contents.set, values_put] at he
    rcases mem_append.mp he with hold | hnew
    · exact h.nonneg e ((values_remove_sublist _ id).subset hold)
    · cases mem_singleton.mp hnew
      exact hsize

theorem Accounted.seq (h : Accounted c) (seq : Nat) : Accounted { c with seq } := { h with }

theorem Accounted.commitAll (h : Accounted c) {chs : List (Change T)}
    (hdel : ∀ ch ∈ chs, ch = .del ch.id ch.seq) : Accounted (c.commitAll codec chs) := by
  induction chs generalizing c with
  | nil => exact h
  | cons ch chs ih =>
    rw [commitAll_cons]
    apply ih
    · rw [hdel ch mem_cons_self]
      exact (h.seq _).drop _
    · exact fun ch' hch' => hdel ch' (mem_cons_of_mem _ hch')

theorem Accounted.replayLine {c' : Contents T} (h : Accounted c) {line : Bytes}
    (hline : c.replayLine codec line = .ok c') : Accounted c' := by
  unfold Contents.replayLine at hline
  split at hline
  · cases hline
  · next r _ =>
    dsimp only at hline
    split at hline
    · split at hline
      · cases hline
      · cases hline
        exact (h.seq _).set _ _ _ (Int.natCast_nonneg _)
    · cases hline
      exact (h.seq _).drop _
    · cases hline
      exact h.seq _

theorem accounted_replay (h : replay codec wal = .ok c) :
    Accounted c := by
  have hempty : Accounted ({} : Contents T) := ⟨rfl, nofun⟩
  cases wal with
  | none =>
    cases h
    exact hempty
  | some wal =>
    refine replay_invariant (fun c c' line hline hc => hc.replayLine hline) h hempty

theorem openWithOptions_replay {dir : String} {opts : Options} {q : Queue T}
    (h : openWithOptions codec dir opts wal = .ok q) : replay codec wal = .ok q.toContents := by
  unfold openWithOptions at h
  split at h
  · cases h
  · split at h
    · cases h
    · split at h
      · cases h
      · next hreplay =>
        cases h
        exact hreplay

end

private theorem foldl_oldest_le (entries : List (Bytes × Entry T)) (hnamed : ∀ entry ∈ entries, entry.1 ≠ [])
    (best : Bytes × Nat) (hbest : best.1 ≠ []) :
    let result := entries.foldl
      (fun best entry =>
        if best.1 = [] ∨ entry.2.seq < best.2 then (entry.1, entry.2.seq) else best) best
    (result = best ∨ ∃ entry ∈ entries, result = (entry.1, entry.2.seq)) ∧ result.2 ≤ best.2 ∧
      ∀ entry ∈ entries, result.2 ≤ entry.2.seq := by
  induction entries generalizing best with
  | nil => exact ⟨.inl rfl, le_rfl, nofun⟩
  | cons entry entries ih =>
    have hrest : ∀ entry ∈ entries, entry.1 ≠ [] := fun other hother => hnamed other (mem_cons_of_mem _ hother)
    dsimp only [foldl_cons]
    split
    · next h =>
      have hlt : entry.2.seq < best.2 := h.resolve_left hbest
      obtain ⟨hfrom, hle, hall⟩ := ih hrest (entry.1, entry.2.seq) (hnamed entry mem_cons_self)
      refine ⟨.inr ?_, hle.trans hlt.le, fun other hother => ?_⟩
      · rcases hfrom with hfrom | ⟨other, hother, hfrom⟩
        · exact ⟨entry, mem_cons_self, hfrom⟩
        · exact ⟨other, mem_cons_of_mem _ hother, hfrom⟩
      · rcases mem_cons.mp hother with rfl | hother
        · exact hle
        · exact hall other hother
    · next h =>
      have hge : best.2 ≤ entry.2.seq := Nat.le_of_not_lt fun hlt => h (.inr hlt)
      obtain ⟨hfrom, hle, hall⟩ := ih hrest best hbest
      refine ⟨?_, hle, fun other hother => ?_⟩
      · rcases hfrom with hfrom | ⟨other, hother, hfrom⟩
        · exact .inl hfrom
        · exact .inr ⟨other, mem_cons_of_mem _ hother, hfrom⟩
      · rcases mem_cons.mp hother with rfl | hother
        · exact hle.trans hge
        · exact hall other hother

theorem oldestIDLocked_le {c : Contents T} (hnamed : [] ∉ c.items) {e : Entry T}
    (he : c.items.get? c.oldestIDLocked = some e) : ∀ other ∈ c.items.values, e.seq ≤ other.seq := by
  have hkeys (entry : Bytes × Entry T) (hentry : entry ∈ c.items.entries) : entry.1 ≠ [] := by
    intro hnil
    exact hnamed (hnil ▸ mem_iff_keys.mpr (List.mem_map_of_mem hentry))
  intro other hother
  obtain ⟨last, hlast, rfl⟩ := List.mem_map.mp hother
  unfold Contents.oldestIDLocked at he
  cases hentries : c.items.entries with
  | nil =>
    rw [hentries] at hlast
    cases hlast
  | cons entry entries =>
    rw [hentries] at hkeys hlast he
    rw [foldl_cons, if_pos (.inl rfl)] at he
    obtain ⟨hfrom, hle, hall⟩ := foldl_oldest_le entries (fun entry hentry => hkeys entry (mem_cons_of_mem _ hentry))
      (entry.1, entry.2.seq) (hkeys entry mem_cons_self)
    have hfound : ∃ found ∈ entry :: entries, entries.foldl (fun best entry =>
        if best.1 = [] ∨ entry.2.seq < best.2 then (entry.1, entry.2.seq) else best) (entry.1, entry.2.seq) =
          (found.1, found.2.seq) := by
      rcases hfrom with hfrom | ⟨found, hfound, hfrom⟩
      · exact ⟨entry, mem_cons_self, hfrom⟩
      · exact ⟨found, mem_cons_of_mem _ hfound, hfrom⟩
    obtain ⟨found, hfound, heq⟩ := hfound
    rw [heq] at he hle hall
    have hget : c.items.get? found.1 = some found.2 := by
      apply get?_of_mem_entries
      rw [hentries]
      exact hfound
    cases hget.symm.trans he
    rcases mem_cons.mp hlast with rfl | hlast
    · exact hle
    · exact hall last hlast

def Contents.since (c : Contents T) (id : Bytes) : Contents T :=
  let kept := c.items.filterValues fun e => ((c.items.get? id).map Entry.seq).getD 0 ≤ e.seq
  { c with items := kept, bytes := kept.total Entry.bytes }

/-- A put that overwrites an entry under drop-oldest has room for it when all older entries are gone. -/
def Spares (codec : Codec T) (q : Queue T) : Call T → Prop
  | .put id v => q.settings.policy = .dropOldest → id ∈ q.items →
    (q.since id).overLimit q.settings 0 (q.addBytes codec id v) = false
  | .delete _ => True

instance (codec : Codec T) (q : Queue T) (call : Call T) : Decidable (Spares codec q call) := by
  unfold Spares
  split <;> infer_instance

theorem overLimit_mono {c c' : Contents T} {settings : Settings} {addItems addBytes : Int}
    (hsize : c.items.size ≤ c'.items.size) (hbytes : c.bytes ≤ c'.bytes)
    (h : c.overLimit settings addItems addBytes = true) : c'.overLimit settings addItems addBytes = true := by
  simp only [Contents.overLimit, Bool.or_eq_true, Bool.and_eq_true, decide_eq_true_eq] at h ⊢
  omega

theorem ne_of_mem_dropping (codec : Codec T) {settings : Settings} {addBytes : Int} {fuel : Nat} {c c₀ : Contents T}
    {id : Bytes} {own : Entry T} (hown : c₀.items.get? id = some own) (hnonneg : ∀ e ∈ c₀.items.values, 0 ≤ e.bytes)
    (hspare : (c₀.since id).overLimit settings 0 addBytes = false)
    (hc : Accounted c) (hnamed : [] ∉ c.items) (hpart : c.items.entries.Sublist c₀.items.entries)
    (hmem : c.items.get? id = some own) :
    ∀ ch ∈ c.dropping codec settings 0 addBytes fuel, ch.id ≠ id := by
  induction fuel generalizing c with
  | zero => rintro _ ⟨⟩
  | succ fuel ih =>
    unfold Contents.dropping
    split
    · next hover =>
      have hne : c.oldestIDLocked ≠ id := by
        intro heq
        have hall := oldestIDLocked_le hnamed (heq.symm ▸ hmem)
        have hsince : c.items.entries.Sublist (c₀.since id).items.entries := by
          refine List.Sublist.trans ?_ (hpart.filter _)
          rw [filter_eq_self.mpr]
          intro entry hentry
          rw [hown]
          exact decide_eq_true (hall entry.2 (List.mem_map_of_mem hentry))
        have hbytes : c.bytes ≤ (c₀.since id).bytes := by
          rw [hc.bytes]
          apply total_le_of_sublist hsince
          exact fun e he => hnonneg e ((filter_sublist.map _).subset he)
        rw [overLimit_mono hsince.length_le hbytes hover.1] at hspare
        cases hspare
      intro ch hch
      rcases mem_cons.mp hch with rfl | hch
      · exact hne
      · refine ih ((hc.seq _).drop _) ?_ ?_ ?_ ch hch
        · exact fun h => hnamed (mem_remove.mp h).2
        · exact filter_sublist.trans hpart
        · exact (get?_remove ..).trans ((if_neg (Ne.symm hne)).trans hmem)
    · simp

theorem Spares.keepsSelf {codec : Codec T} {q : Queue T} {call : Call T} (h : Spares codec q call)
    (hq : Accounted q.toContents) (hnamed : [] ∉ q.items) : KeepsSelf codec q call := by
  cases call with
  | delete id => trivial
  | put id v =>
    intro ch hch
    by_cases hmem : id ∈ q.items
    · obtain ⟨own, hown⟩ := Option.isSome_iff_exists.mp (mem_iff_get?.mp hmem)
      unfold Contents.evictions at hch
      split at hch
      · next hpolicy =>
        have hitems : q.addItems id = 0 := if_pos hmem
        rw [hitems] at hch
        exact ne_of_mem_dropping codec hown hq.nonneg (h hpolicy hmem) hq hnamed (List.Sublist.refl _) hown ch hch
      · cases hch
    · rintro rfl
      exact hmem (of_mem_evictions hch).2.1

section

def Within (settings : Settings) (c : Contents T) : Prop :=
  (settings.maxItems > 0 → c.items.size ≤ settings.maxItems) ∧ (settings.maxBytes > 0 → c.stored ≤ settings.maxBytes)

variable {codec : Codec T} {q : Queue T}

theorem Accounted.changes {call : Call T} (hq : Accounted q.toContents)
    (hself : KeepsSelf codec q call) : Accounted (q.commitAll codec (q.changes codec call)) := by
  cases call with
  | delete id =>
    simp only [Queue.changes]
    split
    · exact (hq.seq _).drop id
    · exact hq
  | put id v =>
    have hevicted : Accounted (q.commitAll codec (q.evictions codec q.settings id v)) :=
      hq.commitAll fun ch hch => (of_mem_evictions hch).1
    simp only [Queue.changes]
    split
    · exact hq
    · split
      · exact hevicted
      · rw [commitAll_append, ← bytesOf_commitAll_of_ne codec q.toContents _ id hself]
        exact (hevicted.seq _).set id _ v (Int.natCast_nonneg _)

theorem notMem_changes {call : Call T} (h : [] ∉ q.items) :
    [] ∉ (q.commitAll codec (q.changes codec call)).items := by
  rw [commitAll_items]
  intro hmem
  -- the ids of a plan are ids of the queue or the id of the put, which is not empty
  rcases mem_of_mem_update codec _ _ _ hmem with hold | ⟨ch, hch, hid⟩
  · exact h hold
  · obtain ⟨-, ⟨-, hitem⟩ | ⟨v, old, rfl, -⟩⟩ := of_mem_changes hch
    · exact h (hid ▸ hitem)
    · rw [Queue.changes, if_pos hid] at hch
      cases hch

theorem within_of_put {id : Bytes} {v : T} (hq : Accounted q.toContents)
    (hself : KeepsSelf codec q (.put id v)) (hok : q.refusal codec (.put id v) = none) :
    Within q.settings (q.commitAll codec (q.changes codec (.put id v))) := by
  have hafter := hq.changes hself
  simp only [refusal] at hok
  split at hok
  · cases hok
  next hid =>
  split at hok
  · cases hok
  next hfull =>
  have hitems : id ∈ (q.commitAll codec (q.evictions codec q.settings id v)).items ↔ id ∈ q.items := by
    rw [mem_iff_get?, mem_iff_get?, get?_commitAll_of_ne codec q.toContents _ id hself]
  simp only [Queue.changes, if_neg hid, if_neg hfull, commitAll_append] at hafter ⊢
  have hsize := size_put (q.commitAll codec (q.evictions codec q.settings id v)).items id
    ⟨id, nextSeq (q.commitAll codec (q.evictions codec q.settings id v)).seq, v, (codec.marshal v).length⟩
  have hadd : q.addItems id = if id ∈ (q.commitAll codec (q.evictions codec q.settings id v)).items then 0 else 1 := by
    simp only [hitems, Contents.addItems]
  rw [Contents.stillFull] at hfull
  simp only [Contents.overLimit, Bool.or_eq_true, Bool.and_eq_true, decide_eq_true_eq, not_or, not_and] at hfull
  constructor
  · intro hmax
    have hle := hfull.1 hmax
    rw [hadd] at hle
    change ((OrderedMap.put _ _ _).size : Int) ≤ _
    rw [hsize]
    omega
  · intro hmax
    have hle := hfull.2 hmax
    rw [← hafter.bytes]
    change (q.commitAll codec (q.evictions codec q.settings id v)).bytes - q.bytesOf id + (codec.marshal v).length ≤ _
    rw [Contents.addBytes] at hle
    omega

inductive SparingStep (codec : Codec T) : Queue T → Queue T → Prop where
  | call (q : Queue T) (call : Call T) (h : Spares codec q call) :
      SparingStep codec q (after (q.call codec none call))

theorem after_report (refusal : Option Error) (q : Queue T) : after (report refusal q) = q := by
  cases refusal <;> rfl

theorem SparingStep.accounted {q' : Queue T} (h : SparingStep codec q q')
    (hq : Accounted q.toContents ∧ [] ∉ q.items) : Accounted q'.toContents ∧ [] ∉ q'.items := by
  cases h with
  | call call hspares =>
    obtain ⟨q₁, hcall, hcontents, -⟩ := call_none codec q call
    rw [hcall, after_report, hcontents]
    exact ⟨hq.1.changes (hspares.keepsSelf hq.1 hq.2), notMem_changes hq.2⟩

/-- The byte counter is right in every state of a run, and a put that succeeds is within the limits. -/
theorem accounted_of_run (codec : Codec T) (dir : String) (opts : Options) (wal : Option Bytes) (q₀ q : Queue T)
    (hopen : openWithOptions codec dir opts wal = .ok q₀) (hnamed : [] ∉ q₀.items)
    (hrun : ReflTransGen (SparingStep codec) q₀ q) :
    q.bytes = q.stored ∧ ∀ id v q', Spares codec q (.put id v) → q.put codec none id v = .ok q' →
      Within q'.settings q'.toContents := by
  have hstart : Accounted q₀.toContents ∧ [] ∉ q₀.items := ⟨accounted_replay (openWithOptions_replay hopen), hnamed⟩
  obtain ⟨hq, hnamed⟩ := Run.invariant (fun _ _ hstep => hstep.accounted) hrun hstart
  refine ⟨hq.bytes, fun id v q' hspares hput => ?_⟩
  obtain ⟨q₁, hcall, hcontents, hsettings⟩ := call_none codec q (.put id v)
  change q.put codec none id v = _ at hcall
  rw [hput] at hcall
  cases hrefusal : q.refusal codec (.put id v) with
  | some err =>
    rw [hrefusal] at hcall
    cases hcall
  | none =>
    rw [hrefusal] at hcall
    cases hcall
    rw [hsettings, hcontents]
    exact within_of_put hq (hspares.keepsSelf hq hnamed) hrefusal

def tightOptions : Options := { maxBytes := 4, policy := "drop-oldest" }

def tightQueue : Queue Bool := { settings := ⟨0, 4, .dropOldest⟩ }

theorem accounted_after_one_put :
    (after (tightQueue.call boolCodec none (.put (ascii "a") true))).bytes = 4 ∧
      Within ⟨0, 4, .dropOldest⟩ (after ((after (tightQueue.call boolCodec none (.put (ascii "a") true))).call
        boolCodec none (.put (ascii "b") true))).toContents := by
  have hrun := accounted_of_run boolCodec "queue" tightOptions none tightQueue _ rfl (by decide)
    (.single (.call tightQueue (.put (ascii "a") true) (by decide)))
  refine ⟨hrun.1.trans (by decide), ?_⟩
  exact hrun.2 (ascii "b") true (after ((after (tightQueue.call boolCodec none (.put (ascii "a") true))).call
    boolCodec none (.put (ascii "b") true))) (by decide) (by decide)

/-- A put that overwrites the oldest entry evicts it, and takes its bytes off twice. -/
theorem overwrite_miscounted :
    openWithOptions boolCodec "queue" tightOptions none = .ok tightQueue ∧
      ∃ q, callAll boolCodec tightQueue [.put (ascii "a") true, .put (ascii "a") false] = .ok q ∧
        q.bytes = 1 ∧ q.stored = 5 ∧ ¬Within q.settings q.toContents := by
  refine ⟨rfl, after (callAll boolCodec tightQueue [.put (ascii "a") true, .put (ascii "a") false]), ?_, ?_, ?_, ?_⟩
  · decide
  · decide
  · decide
  · exact fun h => absurd (h.2 (by decide)) (by decide)

end

/-- The queue is as it was: what it holds, in which order, how it is counted, and what a reopen reads. -/
structure Unchanged (codec : Codec T) (q q' : Queue T) : Prop where
  items : q'.items = q.items
  list : q'.list = q.list
  bytes : q'.bytes = q.bytes
  reopened : replay codec (some q'.wal) = replay codec (some q.wal)

theorem Unchanged.refl (codec : Codec T) (q : Queue T) : Unchanged codec q q := ⟨rfl, rfl, rfl, rfl⟩

theorem makeRoom_full {codec : Codec T} {cut : Option Cut} {q q' : Queue T} {addItems addBytes : Int}
    (h : q.makeRoom codec cut addItems addBytes = .error (.full, q')) :
    q' = q ∧ q.settings.policy ≠ .dropOldest ∨
      q.settings.policy = .dropOldest ∧ q'.items.size = 0 ∧ (q.items.size = 0 → q' = q) := by
  unfold makeRoom at h
  split at h
  · next hover =>
    cases hpolicy : q.settings.policy with
    | reject =>
      rw [hpolicy] at h
      cases h
      exact .inl ⟨rfl, nofun⟩
    | dropNewest =>
      rw [hpolicy] at h
      cases h
      exact .inl ⟨rfl, nofun⟩
    | dropOldest =>
      rw [hpolicy] at h
      dsimp only at h
      split at h
      · next failed hloop =>
        cases h
        cases dropOldest_error hloop
      · next q₁ cut₁ hloop =>
        split at h
        · next hstill =>
          cases h
          obtain ⟨hcontents, hsettings⟩ := dropOldest_ok hloop
          have hends := dropping_ends codec q.settings addItems addBytes q.items.size q.toContents le_rfl
          rw [← hcontents, ← hsettings] at hends
          refine .inr ⟨rfl, Nat.eq_zero_of_not_pos fun hpos => hends ⟨hstill, hpos⟩, fun hempty => ?_⟩
          rw [hempty] at hloop
          cases hloop
          rfl
        · cases h
  · cases h

/-- A put that is refused changes nothing, unless drop-oldest had something to drop. -/
theorem refused_put_iff (codec : Codec T) (cut : Option Cut) (q q' : Queue T) (id : Bytes) (v : T)
    (h : q.put codec cut id v = .error (.full, q')) :
    Unchanged codec q q' ↔ (q.settings.policy = .dropOldest → q.items.size = 0) := by
  have hroom : q.makeRoom codec cut (q.addItems id) (q.addBytes codec id v) = .error (.full, q') := by
    unfold put at h
    split at h
    · cases h
    · dsimp only at h
      split at h
      · next failed hroom =>
        cases h
        exact hroom
      · split at h
        · next happend =>
          cases h
          cases appendLocked_error happend
        · cases h
  rcases makeRoom_full hroom with ⟨rfl, hpolicy⟩ | ⟨hpolicy, hempty, hsame⟩
  · exact ⟨fun _ heq => absurd heq hpolicy, fun _ => .refl codec q'⟩
  · constructor
    · intro hunchanged _
      rw [← hunchanged.items]
      exact hempty
    · intro hnone
      rw [hsame (hnone hpolicy)]
      exact .refl codec q

theorem refused_put_reject :
    Unchanged boolCodec { tightQueue with settings := ⟨0, 4, .reject⟩ } { tightQueue with settings := ⟨0, 4, .reject⟩ } :=
  (refused_put_iff boolCodec none { tightQueue with settings := ⟨0, 4, .reject⟩ } _ (ascii "b") false rfl).mpr nofun

/-- A message that can never fit empties the queue before it is refused. -/
theorem refused_put_evicts :
    ∃ q q', openWithOptions boolCodec "queue" tightOptions none = .ok tightQueue ∧
      tightQueue.put boolCodec none (ascii "a") true = .ok q ∧
      q.put boolCodec none (ascii "b") false = .error (.full, q') ∧ q.list = [true] ∧ q'.list = [] ∧
      ¬Unchanged boolCodec q q' := by
  refine ⟨after (tightQueue.put boolCodec none (ascii "a") true), after ((after (tightQueue.put boolCodec none
    (ascii "a") true)).put boolCodec none (ascii "b") false), rfl, ?_, ?_, ?_, ?_, ?_⟩
  · decide
  · decide
  · decide
  · decide
  · exact fun h => absurd h.list (by decide)

end Nodra.Queue
