import Nodra.Queue.Accounting

/-! What a put under drop-oldest evicts.  As long as the sequence numbers do not wrap, the entries
stand in the order of their numbers, the loop takes them from the front, and what is left is the
longest suffix that leaves room. -/
namespace Nodra.Queue
open Lines JsonText List OrderedMap

variable {T : Type}

section

/-- The size of a value in the log, which is what counts against the limit. -/
def size (codec : Codec T) (v : T) : Int := (codec.marshal v).length

structure InOrder (codec : Codec T) (c : Contents T) : Prop where
  sorted : c.items.entries.Pairwise fun a b => a.2.seq < b.2.seq
  below : ∀ entry ∈ c.items.entries, entry.2.seq ≤ c.seq
  named : ∀ entry ∈ c.items.entries, entry.1 ≠ []
  sizes : ∀ entry ∈ c.items.entries, entry.2.bytes = size codec entry.2.data
  bytes : c.bytes = c.stored

variable {codec : Codec T} {c : Contents T}

theorem InOrder.list_eq (h : InOrder codec c) : c.list = c.items.entries.map fun entry => entry.2.data := by
  have hvalues : c.items.values.Pairwise fun a b => a.seq ≤ b.seq :=
    pairwise_map.mpr (h.sorted.imp fun hlt => hlt.le)
  rw [Contents.list, Contents.sorted, List.Pairwise.insertionSort_eq hvalues, OrderedMap.values, List.map_map]
  rfl

theorem InOrder.stored_eq (h : InOrder codec c) : c.stored = (c.list.map (size codec)).sum := by
  rw [h.list_eq, Contents.stored, total_eq_sum, List.map_map]
  exact congrArg List.sum (map_congr_left h.sizes)

theorem InOrder.accounted (h : InOrder codec c) : Accounted c where
  bytes := h.bytes
  nonneg := by
    intro e he
    obtain ⟨entry, hentry, rfl⟩ := List.mem_map.mp he
    rw [h.sizes entry hentry]
    exact Int.natCast_nonneg _

theorem InOrder.sublist (h : InOrder codec c) {c' : Contents T} (hentries : c'.items.entries.Sublist c.items.entries)
    (hseq : c.seq ≤ c'.seq) (hbytes : c'.bytes = c'.stored) : InOrder codec c' where
  sorted := h.sorted.sublist hentries
  below := fun entry hentry => (h.below entry (hentries.subset hentry)).trans hseq
  named := fun entry hentry => h.named entry (hentries.subset hentry)
  sizes := fun entry hentry => h.sizes entry (hentries.subset hentry)
  bytes := hbytes

private theorem foldl_oldest_first (entries : List (Bytes × Entry T)) (best : Bytes × Nat) (hbest : best.1 ≠ [])
    (hle : ∀ entry ∈ entries, best.2 ≤ entry.2.seq) :
    entries.foldl (fun best entry =>
      if best.1 = [] ∨ entry.2.seq < best.2 then (entry.1, entry.2.seq) else best) best = best := by
  induction entries with
  | nil => rfl
  | cons entry entries ih =>
    have hfirst : ¬ (best.1 = [] ∨ entry.2.seq < best.2) := by
      have := hle entry mem_cons_self
      simp only [hbest, false_or]
      omega
    rw [foldl_cons, if_neg hfirst]
    exact ih fun other hother => hle other (mem_cons_of_mem entry hother)

variable {entry : Bytes × Entry T}

theorem InOrder.oldestIDLocked_eq (h : InOrder codec c) {rest : List (Bytes × Entry T)}
    (hentries : c.items.entries = entry :: rest) : c.oldestIDLocked = entry.1 := by
  have hsorted := h.sorted
  have hnamed := h.named entry (by simp [hentries])
  rw [hentries, pairwise_cons] at hsorted
  rw [Contents.oldestIDLocked, hentries, foldl_cons, if_pos (.inl rfl), foldl_oldest_first]
  · exact hnamed
  · exact fun other hother => (hsorted.1 other hother).le

theorem entries_remove_first {m : OrderedMap Bytes (Entry T)} {rest : List (Bytes × Entry T)}
    (hentries : m.entries = entry :: rest) : (m.remove entry.1).entries = rest := by
  have hnodup := m.nodup
  rw [hentries, map_cons, nodup_cons] at hnodup
  change m.entries.filter _ = rest
  rw [hentries, filter_cons_of_neg (by simp)]
  apply filter_eq_self.mpr
  intro other hother
  have hne : other.1 ≠ entry.1 := fun heq => hnodup.1 (heq ▸ List.mem_map_of_mem hother)
  simpa using hne

theorem InOrder.evict (h : InOrder codec c) {rest : List (Bytes × Entry T)}
    (hentries : c.items.entries = entry :: rest) (hseq : c.seq + 1 < 2 ^ 64) :
    InOrder codec (c.commit codec (.del entry.1 (nextSeq c.seq))) ∧
      (c.commit codec (.del entry.1 (nextSeq c.seq))).items.entries = rest := by
  have hrest : (c.commit codec (.del entry.1 (nextSeq c.seq))).items.entries = rest := entries_remove_first hentries
  refine ⟨h.sublist ?_ ?_ ?_, hrest⟩
  · rw [hrest, hentries]
    exact sublist_cons_self entry rest
  · change c.seq ≤ nextSeq c.seq
    rw [nextSeq_eq hseq]
    omega
  · exact ((h.accounted.seq _).drop _).bytes

end

section

def Room (codec : Codec T) (settings : Settings) (kept : List T) (v : T) : Prop :=
  (settings.maxItems > 0 → (kept.length : Int) + 1 ≤ settings.maxItems) ∧
    (settings.maxBytes > 0 → (kept.map (size codec)).sum + size codec v ≤ settings.maxBytes)

variable {codec : Codec T} {c : Contents T} {settings : Settings} {v : T}

theorem InOrder.overLimit_iff (h : InOrder codec c) :
    c.overLimit settings 1 (size codec v) = true ↔ ¬ Room codec settings c.list v := by
  have hlength : c.list.length = c.items.size := by
    rw [h.list_eq, length_map]
    rfl
  simp only [Contents.overLimit, Room, ← h.stored_eq, h.bytes, hlength, Bool.or_eq_true, Bool.and_eq_true,
    decide_eq_true_eq]
  omega

structure Evicted (codec : Codec T) (settings : Settings) (v : T) (c c' : Contents T) (k : Nat) : Prop where
  inOrder : InOrder codec c'
  entries : c'.items.entries = c.items.entries.drop k
  seq : c'.seq = c.seq + k
  le : k ≤ c.items.size
  full : ∀ j < k, ¬ Room codec settings (c.list.drop j) v
  room : Room codec settings c'.list v ∨ c'.items.entries = []

theorem InOrder.dropping (h : InOrder codec c) {fuel : Nat} (hfuel : c.items.size ≤ fuel)
    (hseq : c.seq + c.items.size < 2 ^ 64) :
    ∃ k, Evicted codec settings v c (c.commitAll codec (c.dropping codec settings 1 (size codec v) fuel)) k := by
  induction fuel generalizing c with
  | zero =>
    have hempty : c.items.entries = [] := eq_nil_of_length_eq_zero (Nat.le_zero.mp hfuel)
    exact ⟨0, h, rfl, rfl, Nat.zero_le _, nofun, .inr hempty⟩
  | succ fuel ih =>
    unfold Contents.dropping
    split
    · next hover =>
      obtain ⟨hfull, hpos⟩ := hover
      obtain ⟨entry, rest, hentries⟩ := exists_cons_of_length_pos hpos
      have hsize : c.items.size = rest.length + 1 := by simp [OrderedMap.size, hentries]
      obtain ⟨hnext, hrest⟩ := h.evict hentries (by omega)
      have hnextseq : (c.commit codec (.del entry.1 (nextSeq c.seq))).seq = c.seq + 1 := nextSeq_eq (by omega)
      have hnextsize : (c.commit codec (.del entry.1 (nextSeq c.seq))).items.size = rest.length := by
        rw [OrderedMap.size, hrest]
      rw [h.oldestIDLocked_eq hentries, commitAll_cons]
      obtain ⟨k, hk⟩ := ih hnext (by omega) (by omega)
      have hlist : (c.commit codec (.del entry.1 (nextSeq c.seq))).list = c.list.drop 1 := by
        rw [hnext.list_eq, h.list_eq, hrest, hentries]
        rfl
      refine ⟨k + 1, hk.inOrder, ?_, ?_, ?_, ?_, hk.room⟩
      · rw [hk.entries, hrest, hentries]
        rfl
      · rw [hk.seq, hnextseq]
        omega
      · have := hk.le
        omega
      · intro j hj
        cases j with
        | zero => exact h.overLimit_iff.mp hfull
        | succ j =>
          have hbefore := hk.full j (by omega)
          rwa [hlist, drop_drop, Nat.add_comm] at hbefore
    · next hover =>
      refine ⟨0, h, rfl, rfl, Nat.zero_le _, nofun, ?_⟩
      by_cases hpos : c.items.size > 0
      · left
        have hroom : ¬ c.overLimit settings 1 (size codec v) = true := fun hfull => hover ⟨hfull, hpos⟩
        rw [h.overLimit_iff, not_not] at hroom
        exact hroom
      · right
        exact eq_nil_of_length_eq_zero (Nat.eq_zero_of_not_pos hpos)

theorem InOrder.put (h : InOrder codec c) {id : Bytes} (hid : id ≠ []) (hseq : c.seq + 1 < 2 ^ 64) :
    InOrder codec (c.commit codec (.put id (nextSeq c.seq) v (c.bytesOf id))) := by
  have hkept : ∀ entry ∈ (c.items.remove id).entries, entry ∈ c.items.entries :=
    fun entry hentry => (mem_filter.mp hentry).1
  have hmem : ∀ entry ∈ (c.commit codec (.put id (nextSeq c.seq) v (c.bytesOf id))).items.entries,
      entry ∈ c.items.entries ∨ entry = (id, ⟨id, nextSeq c.seq, v, size codec v⟩) := by
    intro entry hentry
    rcases mem_append.mp hentry with hold | hnew
    · exact .inl (hkept entry hold)
    · exact .inr (mem_singleton.mp hnew)
  refine ⟨?_, ?_, ?_, ?_, ?_⟩
  · change ((c.items.remove id).entries ++ [(id, _)]).Pairwise _
    rw [pairwise_append]
    refine ⟨h.sorted.sublist filter_sublist, pairwise_singleton _ _, fun entry hentry last hlast => ?_⟩
    cases mem_singleton.mp hlast
    have := h.below entry (hkept entry hentry)
    dsimp only
    rw [nextSeq_eq hseq]
    omega
  · intro entry hentry
    change entry.2.seq ≤ nextSeq c.seq
    rcases hmem entry hentry with hold | rfl
    · have := h.below entry hold
      rw [nextSeq_eq hseq]
      omega
    · exact le_rfl
  · intro entry hentry
    rcases hmem entry hentry with hold | rfl
    · exact h.named entry hold
    · exact hid
  · intro entry hentry
    rcases hmem entry hentry with hold | rfl
    · exact h.sizes entry hold
    · rfl
  · have hsize : 0 ≤ size codec v := Int.natCast_nonneg _
    exact ((h.accounted.seq (nextSeq c.seq)).set id (nextSeq c.seq) v hsize).bytes

theorem InOrder.push (h : InOrder codec c) {id : Bytes} (hid : id ≠ []) (hfresh : id ∉ c.items)
    (hseq : c.seq + 1 < 2 ^ 64) :
    InOrder codec (c.commit codec (.put id (nextSeq c.seq) v 0)) ∧
      (c.commit codec (.put id (nextSeq c.seq) v 0)).items.entries =
        c.items.entries ++ [(id, ⟨id, nextSeq c.seq, v, size codec v⟩)] := by
  have hold : c.bytesOf id = 0 := by
    rw [Contents.bytesOf, get?_eq_none_iff.mpr hfresh]
  refine ⟨hold ▸ h.put hid hseq, ?_⟩
  change (c.items.remove id).entries ++ _ = _
  rw [remove_of_not_mem hfresh]
  rfl

end

section

variable {codec : Codec T} {q : Queue T} {id : Bytes} {v : T}

def Unwrapped (q : Queue T) : Prop := q.seq + q.items.size + 1 < 2 ^ 64

theorem addItems_fresh (hfresh : id ∉ q.items) : q.addItems id = 1 := if_neg hfresh

theorem bytesOf_fresh (hfresh : id ∉ q.items) : q.bytesOf id = 0 := by
  rw [Contents.bytesOf, get?_eq_none_iff.mpr hfresh]

theorem addBytes_fresh (hfresh : id ∉ q.items) : q.addBytes codec id v = size codec v := by
  rw [Contents.addBytes, bytesOf_fresh hfresh]
  exact Int.sub_zero _

theorem InOrder.evictions (h : InOrder codec q.toContents) (hpolicy : q.settings.policy = .dropOldest)
    (hfresh : id ∉ q.items) (hcount : Unwrapped q) :
    ∃ k, Evicted codec q.settings v q.toContents (q.commitAll codec (q.evictions codec q.settings id v)) k := by
  unfold Unwrapped at hcount
  rw [Contents.evictions, if_pos hpolicy, addItems_fresh hfresh, addBytes_fresh hfresh]
  exact h.dropping le_rfl (by omega)

variable {settings : Settings} {c c' : Contents T} {k : Nat}

theorem Evicted.notMem (h : Evicted codec settings v c c' k) (hfresh : id ∉ c.items) : id ∉ c'.items := by
  intro hmem
  apply hfresh
  rw [mem_iff_keys, OrderedMap.keys, h.entries] at hmem
  rw [mem_iff_keys, OrderedMap.keys]
  exact ((drop_sublist k _).map Prod.fst).subset hmem

theorem Evicted.list_eq (h : Evicted codec settings v c c' k)
    (hc : InOrder codec c) : c'.list = c.list.drop k := by
  rw [h.inOrder.list_eq, hc.list_eq, h.entries, map_drop]

theorem InOrder.stillFull_iff (h : InOrder codec q.toContents) (hpolicy : q.settings.policy = .dropOldest)
    (hfresh : id ∉ q.items) (hcount : Unwrapped q) :
    q.stillFull codec q.settings id v = true ↔
      ¬ Room codec q.settings (q.commitAll codec (q.evictions codec q.settings id v)).list v := by
  obtain ⟨k, hk⟩ := h.evictions hpolicy hfresh hcount (v := v)
  rw [Contents.stillFull, addItems_fresh hfresh, addBytes_fresh hfresh]
  exact hk.inOrder.overLimit_iff

theorem InOrder.put_room (h : InOrder codec q.toContents) (hpolicy : q.settings.policy = .dropOldest)
    (hid : id ≠ []) (hfresh : id ∉ q.items) (hcount : Unwrapped q)
    (hroom : Room codec q.settings (q.commitAll codec (q.evictions codec q.settings id v)).list v) :
    q.refusal codec (.put id v) = none ∧ InOrder codec (q.commitAll codec (q.changes codec (.put id v))) ∧
      (q.commitAll codec (q.changes codec (.put id v))).list =
        (q.commitAll codec (q.evictions codec q.settings id v)).list ++ [v] := by
  have hnotFull : ¬ q.stillFull codec q.settings id v = true := by
    rw [h.stillFull_iff hpolicy hfresh hcount]
    exact not_not.mpr hroom
  obtain ⟨k, hk⟩ := h.evictions hpolicy hfresh hcount (v := v)
  have hseq : (q.commitAll codec (q.evictions codec q.settings id v)).seq + 1 < 2 ^ 64 := by
    have := hk.le
    unfold Unwrapped at hcount
    rw [hk.seq]
    omega
  obtain ⟨hpush, hentries⟩ := hk.inOrder.push hid (hk.notMem hfresh) hseq (v := v)
  simp only [refusal, changes, if_neg hid, if_neg hnotFull, commitAll_append, bytesOf_fresh hfresh, commitAll_cons,
    commitAll_nil, true_and]
  refine ⟨hpush, ?_⟩
  rw [hpush.list_eq, hentries, hk.inOrder.list_eq, map_append]
  rfl

theorem InOrder.changes (h : InOrder codec q.toContents) (hpolicy : q.settings.policy = .dropOldest) (call : Call T)
    (hfresh : ∀ id v, call = .put id v → id ≠ [] ∧ id ∉ q.items) (hcount : Unwrapped q) :
    InOrder codec (q.commitAll codec (q.changes codec call)) := by
  cases call with
  | put id v =>
    obtain ⟨hid, hnew⟩ := hfresh id v rfl
    by_cases hroom : Room codec q.settings (q.commitAll codec (q.evictions codec q.settings id v)).list v
    · exact (h.put_room hpolicy hid hnew hcount hroom).2.1
    · obtain ⟨k, hk⟩ := h.evictions hpolicy hnew hcount (v := v)
      rw [← h.stillFull_iff hpolicy hnew hcount] at hroom
      simp only [Queue.changes, if_neg hid, if_pos hroom]
      exact hk.inOrder
  | delete id =>
    simp only [Queue.changes]
    split
    · refine h.sublist filter_sublist ?_ ((h.accounted.seq _).drop _).bytes
      change q.seq ≤ nextSeq q.seq
      unfold Unwrapped at hcount
      rw [nextSeq_eq (by omega)]
      omega
    · exact h

end

section

def Call.Fresh (q : Queue T) : Call T → Prop
  | .put id _ => id ∉ q.items
  | .delete _ => True

/-- The queues that come from a new one by puts of fresh ids and by deletes, each call where it is
`allowed`. -/
inductive Built (codec : Codec T) (allowed : Queue T → Call T → Prop) : Queue T → Prop where
  | new {dir : String} {opts : Options} {q : Queue T} (h : openWithOptions codec dir opts none = .ok q) :
      Built codec allowed q
  | call {q : Queue T} (call : Call T) (h : Built codec allowed q) (hfresh : call.Fresh q) (hallowed : allowed q call) :
      Built codec allowed (after (q.call codec none call))

def Proper (q : Queue T) (call : Call T) : Prop := Unwrapped q ∧ ∀ v, call ≠ .put [] v

variable {codec : Codec T} {q : Queue T}

theorem Built.inOrder (h : Built codec Proper q) (hpolicy : q.settings.policy = .dropOldest) :
    InOrder codec q.toContents := by
  induction h with
  | new h =>
    have hempty := openWithOptions_replay h
    rw [← Except.ok.inj hempty]
    exact ⟨List.Pairwise.nil, nofun, nofun, nofun, rfl⟩
  | @call q call h hfresh hallowed ih =>
    obtain ⟨q₁, hcall, hcontents, hsettings⟩ := call_none codec q call
    rw [hcall, after_report] at hpolicy ⊢
    rw [hsettings] at hpolicy
    rw [hcontents]
    refine (ih hpolicy).changes hpolicy call ?_ hallowed.1
    rintro id v rfl
    refine ⟨?_, hfresh⟩
    rintro rfl
    exact hallowed.2 v rfl

end

def single (seq : Nat) : Contents Bool :=
  { items := OrderedMap.empty.put (ascii "a") ⟨ascii "a", seq, true, 4⟩, seq, bytes := 4 }

end Nodra.Queue
