import Nodra.Store.Durability

/-! The events that the store has seen: a list of ids, an index of the list, and the last events. -/
namespace Nodra.Store
open Lines JsonString Model Std List

section

variable {α : Type} {n : Nat} {xs : List α} {x : α}

theorem length_lastN_le (n : Nat) (xs : List α) : (lastN n xs).length ≤ n := by
  rw [lastN, length_drop]
  omega

theorem lastN_lastN_append (n : Nat) (xs : List α) (x : α) : lastN n (lastN n xs ++ [x]) = lastN n (xs ++ [x]) := by
  unfold lastN
  rw [← drop_append_of_le_length (Nat.sub_le ..), drop_drop]
  congr 1
  simp only [length_drop, length_append, length_singleton]
  omega

theorem nodup_lastN (n : Nat) (h : xs.Nodup) : (lastN n xs).Nodup := h.sublist (drop_sublist ..)

theorem mem_lastN_iff (h : xs.Nodup) : x ∈ lastN n xs ↔ x ∈ xs ∧ x ∉ xs.take (xs.length - n) := by
  have hsplit := take_append_drop (xs.length - n) xs
  rw [← hsplit] at h
  have hdisjoint := disjoint_of_nodup_append h
  constructor
  · intro hx
    exact ⟨mem_of_mem_drop hx, fun hcut => hdisjoint hcut hx⟩
  · rintro ⟨hx, hcut⟩
    rw [← hsplit, mem_append] at hx
    exact hx.resolve_left hcut

theorem mem_foldl_erase (seen : ExtTreeSet String) (ids : List String) (id : String) :
    id ∈ ids.foldl (fun seen id => seen.erase id) seen ↔ id ∈ seen ∧ id ∉ ids := by
  induction ids generalizing seen with
  | nil => simp
  | cons first ids ih =>
    rw [foldl_cons, ih, ExtTreeSet.mem_erase, Ne, LawfulEqCmp.compare_eq_iff_eq]
    simp only [mem_cons, not_or]
    grind

end

def jsonText (s : Bytes) : String :=
  (utf8? s).getD (String.ofList ((runes s).map fun rune =>
    (((rune.bind utf8?).map String.toList).bind List.head?).getD '\uFFFD'))

def IsText (s : Bytes) : Prop := ∃ t, utf8 t = s

theorem jsonText_utf8 (t : String) : jsonText (utf8 t) = t := by
  rw [jsonText, utf8?_utf8]
  rfl

/-- An event whose id is any string.  The index is asked for the id as it is, and has texts only; what is added is
read back from JSON. -/
structure RawEvent where
  id : Bytes
  event : Event

def RawEvent.decoded (v : RawEvent) : Event := { v.event with id := jsonText v.id }

def RawEvent.Known (s : Store) (v : RawEvent) : Prop := utf8 v.decoded.id = v.id ∧ v.decoded.id ∈ s.seen

instance (s : Store) (v : RawEvent) : Decidable (v.Known s) := inferInstanceAs (Decidable (_ ∧ _))

def addRawEvent (codecs : Codecs) (s : Store) (v : RawEvent) : Store :=
  if v.Known s then s else s.mutate codecs (.eventAdd v.decoded)

theorem addEvent_eq_addRawEvent (codecs : Codecs) (s : Store) (v : Event) :
    addEvent codecs s v = .ok (addRawEvent codecs s ⟨utf8 v.id, v⟩) := by
  have hdecoded : RawEvent.decoded ⟨utf8 v.id, v⟩ = v := by
    rw [RawEvent.decoded, jsonText_utf8]
  have hknown : RawEvent.Known s ⟨utf8 v.id, v⟩ ↔ v.id ∈ s.seen := by
    rw [RawEvent.Known, hdecoded]
    exact and_iff_right rfl
  by_cases hseen : v.id ∈ s.seen
  · rw [addEvent, if_pos hseen, addRawEvent, if_pos (hknown.mpr hseen)]
  · rw [addEvent, if_neg hseen, addRawEvent, if_neg (mt hknown.mp hseen), hdecoded]

section

variable {codecs : Codecs} {s : Store} {accepted : List Event} {v : RawEvent}

def addNext (codecs : Codecs) (c : Store × List Event) (v : RawEvent) : Store × List Event :=
  (addRawEvent codecs c.1 v, if v.Known c.1 then c.2 else c.2 ++ [v.decoded])

def addAll (codecs : Codecs) (s : Store) (calls : List RawEvent) : Store × List Event :=
  calls.foldl (addNext codecs) (s, [])

/-- The store knows the ids of the last events that it took, and no others. -/
structure Dedupes (codecs : Codecs) (s : Store) (accepted : List Event) : Prop where
  nodup : s.state.seenEvents.Nodup
  bounded : s.state.seenEvents.length ≤ maxSeenEvents
  mem_seen : ∀ id, id ∈ s.seen ↔ id ∈ s.state.seenEvents
  window : s.state.seenEvents = lastN maxSeenEvents (accepted.map Event.id)
  events : s.state.events = lastN maxEvents accepted
  skips : ∀ v : RawEvent, v.id ∈ s.state.seenEvents.map utf8 → addRawEvent codecs s v = s

theorem skips_of_mem_seen (h : ∀ id, id ∈ s.seen ↔ id ∈ s.state.seenEvents)
    (hv : v.id ∈ s.state.seenEvents.map utf8) : addRawEvent codecs s v = s := by
  obtain ⟨t, ht, hid⟩ := List.mem_map.mp hv
  have hdecoded : v.decoded.id = t := by
    rw [RawEvent.decoded, ← hid, jsonText_utf8]
  refine if_pos ⟨?_, ?_⟩
  · rw [hdecoded, hid]
  · rw [hdecoded]
    exact (h t).mpr ht

theorem seenEvents_mutate_eventAdd (codecs : Codecs) (s : Store) (v : Event) :
    (s.mutate codecs (.eventAdd v)).state.seenEvents = lastN maxSeenEvents (s.state.seenEvents ++ [v.id]) := by
  simp only [mutate, Mutation.apply, Mutation.update]

theorem events_mutate_eventAdd (codecs : Codecs) (s : Store) (v : Event) :
    (s.mutate codecs (.eventAdd v)).state.events = lastN maxEvents (s.state.events ++ [v]) := by
  simp only [mutate, Mutation.apply, Mutation.update]

theorem mem_seen_mutate_eventAdd (codecs : Codecs) (s : Store) (v : Event) (id : String) :
    id ∈ (s.mutate codecs (.eventAdd v)).seen ↔ (id = v.id ∨ id ∈ s.seen) ∧
      id ∉ (s.state.seenEvents ++ [v.id]).take ((s.state.seenEvents ++ [v.id]).length - maxSeenEvents) := by
  simp only [mutate, Mutation.apply, Mutation.updateSeen, mem_foldl_erase, ExtTreeSet.mem_insert,
    LawfulEqCmp.compare_eq_iff_eq, @eq_comm _ id v.id]

theorem dedupes_mutate (h : Dedupes codecs s accepted) {v : Event} (hnew : v.id ∉ s.seen) :
    Dedupes codecs (s.mutate codecs (.eventAdd v)) (accepted ++ [v]) := by
  have hids : (s.state.seenEvents ++ [v.id]).Nodup := by
    refine nodup_append.mpr ⟨h.nodup, nodup_singleton _, ?_⟩
    rintro id hid _ hlast rfl
    exact hnew ((h.mem_seen _).mpr (mem_singleton.mp hlast ▸ hid))
  have hseen : ∀ id, id ∈ (s.mutate codecs (.eventAdd v)).seen ↔
      id ∈ (s.mutate codecs (.eventAdd v)).state.seenEvents := by
    intro id
    rw [seenEvents_mutate_eventAdd, mem_seen_mutate_eventAdd, mem_lastN_iff hids, h.mem_seen, mem_append,
      mem_singleton, or_comm]
  refine ⟨?_, ?_, hseen, ?_, ?_, fun _ => skips_of_mem_seen hseen⟩
  · rw [seenEvents_mutate_eventAdd]
    exact nodup_lastN _ hids
  · rw [seenEvents_mutate_eventAdd]
    exact length_lastN_le ..
  · rw [seenEvents_mutate_eventAdd, h.window, lastN_lastN_append, map_append, map_singleton]
  · rw [events_mutate_eventAdd, h.events, lastN_lastN_append]

theorem dedupes_addNext (h : Dedupes codecs s accepted) (hid : IsText v.id) :
    Dedupes codecs (addNext codecs (s, accepted) v).1 (addNext codecs (s, accepted) v).2 := by
  obtain ⟨t, ht⟩ := hid
  have hdecoded : v.decoded.id = t := by
    rw [RawEvent.decoded, ← ht, jsonText_utf8]
  unfold addNext addRawEvent
  by_cases hknown : v.Known s
  · rw [if_pos hknown, if_pos hknown]
    exact h
  · rw [if_neg hknown, if_neg hknown]
    refine dedupes_mutate h fun hseen => hknown ⟨?_, hseen⟩
    rw [hdecoded, ht]

theorem dedupes_fresh {path : String} (hopen : openStore codecs path {} = .ok s) : Dedupes codecs s [] := by
  obtain ⟨-, hload, -, -⟩ := openStore_ok hopen
  have hmem : s.toMem = {} := (Except.ok.inj hload).symm
  have hseen : ∀ id, id ∈ s.seen ↔ id ∈ s.state.seenEvents := by
    rw [hmem]
    simp
  refine ⟨?_, ?_, hseen, ?_, ?_, fun _ => skips_of_mem_seen hseen⟩
  all_goals
    rw [hmem]
    simp [lastN]

/-- As long as every id is text, the store knows the ids of the last events, whatever the calls. -/
theorem dedupes_addAll {path : String} (hopen : openStore codecs path {} = .ok s) (calls : List RawEvent)
    (htext : ∀ v ∈ calls, IsText v.id) :
    Dedupes codecs (addAll codecs s calls).1 (addAll codecs s calls).2 := by
  induction calls using List.reverseRecOn with
  | nil => exact dedupes_fresh hopen
  | append_singleton calls v ih =>
    have hbefore := ih fun w hw => htext w (mem_append_left _ hw)
    rw [addAll, foldl_append]
    exact dedupes_addNext hbefore (htext v (by simp))

theorem dedupes_two_pumps :
    openStore numberedCodecs "state.json" {} = .ok freshStore ∧
      Dedupes numberedCodecs (addAll numberedCodecs freshStore (List.replicate 2 ⟨utf8 "pump", {}⟩)).1
        (addAll numberedCodecs freshStore (List.replicate 2 ⟨utf8 "pump", {}⟩)).2 := by
  refine ⟨openStore_empty _, dedupes_addAll (openStore_empty _) _ fun v hv => ?_⟩
  rw [eq_of_mem_replicate hv]
  exact ⟨"pump", rfl⟩

/-- A byte that is no text: its event is taken again and again. -/
theorem stray_byte_repeats :
    openStore numberedCodecs "state.json" {} = .ok freshStore ∧
      (addAll numberedCodecs freshStore (List.replicate 2 ⟨[0xff], {}⟩)).1.state.seenEvents = ["\uFFFD", "\uFFFD"] ∧
      ¬ Dedupes numberedCodecs (addAll numberedCodecs freshStore (List.replicate 2 ⟨[0xff], {}⟩)).1
        (addAll numberedCodecs freshStore (List.replicate 2 ⟨[0xff], {}⟩)).2 := by
  have hdecoded : RawEvent.decoded ⟨[0xff], {}⟩ = { id := "\uFFFD" } := by decide
  have hknown : ∀ s : Store, ¬ RawEvent.Known s ⟨[0xff], {}⟩ := by
    intro s h
    rw [RawEvent.Known, hdecoded] at h
    exact absurd h.1 (by decide)
  have hseen : (addAll numberedCodecs freshStore (List.replicate 2 ⟨[0xff], {}⟩)).1.state.seenEvents =
      ["\uFFFD", "\uFFFD"] := by
    simp only [addAll, List.replicate, foldl_cons, foldl_nil, addNext, addRawEvent, hknown, if_false,
      seenEvents_mutate_eventAdd, hdecoded]
    rfl
  refine ⟨openStore_empty _, hseen, fun h => ?_⟩
  have hnodup := h.nodup
  rw [hseen] at hnodup
  exact absurd hnodup (by decide)

end

end Nodra.Store
