import Nodra.Queue.Accounting

/-! Torn appends.  A run may cut the write of any append and may reopen the queue
at any point.  What a fresh open finds has to be explained by what the callers
observed: every call that returned, and of a cut call its last record or not. -/
namespace Nodra.Queue
open Lines JsonString JsonText Relation List OrderedMap

variable {T : Type}

inductive Effect (T : Type) where
  | put (id : Bytes) (v : T)
  | del (id : Bytes)

def Effect.apply (m : OrderedMap Bytes T) : Effect T → OrderedMap Bytes T
  | .put id v => m.put id v
  | .del id => m.remove id

def Effect.applyAll (m : OrderedMap Bytes T) (effects : List (Effect T)) : OrderedMap Bytes T :=
  effects.foldl Effect.apply m

def Change.effect : Change T → Effect T
  | .put id _ v _ => .put id v
  | .del id _ => .del id

def Call.effect : Call T → Effect T
  | .put id v => .put id v
  | .delete id => .del id

def evicted (codec : Codec T) (q : Queue T) : Call T → List (Effect T)
  | .put id v => if id = [] then [] else (q.evictions codec q.settings id v).map Change.effect
  | .delete _ => []

/-- What a caller knows of a call: all that it did, or all that it did before a
write was cut and what that write was about. -/
inductive Event (T : Type) where
  | done (effects : List (Effect T))
  | cut (effects : List (Effect T)) (torn : Effect T)

inductive Observed (codec : Codec T) (cut : Option Cut) (q : Queue T) (call : Call T) :
    Event T → Prop where
  | returned {q' : Queue T} (h : q.call codec cut call = .ok q') :
      Observed codec cut q call (.done (q.evicted codec call ++ [call.effect]))
  | refused {err : Error} {q' : Queue T} (h : q.call codec cut call = .error (err, q'))
      (hcut : err ≠ .write) : Observed codec cut q call (.done (q.evicted codec call))
  | torn {q' : Queue T} {done rest : List (Change T)} {ch : Change T} {written : Nat}
      (h : q.call codec cut call = .error (.write, q'))
      (hcut : cut = some ⟨done.length, written⟩)
      (hplan : q.changes codec call = done ++ ch :: rest) :
      Observed codec cut q call (.cut (done.map Change.effect) ch.effect)

/-- The maps that the events allow: each event in order, a torn record or not. -/
inductive Explains : List (Event T) → OrderedMap Bytes T → Prop where
  | start : Explains [] .empty
  | done {events : List (Event T)} {m : OrderedMap Bytes T} (effects : List (Effect T)) :
      Explains events m → Explains (events ++ [.done effects]) (Effect.applyAll m effects)
  | lost {events : List (Event T)} {m : OrderedMap Bytes T} (effects : List (Effect T))
      (torn : Effect T) :
      Explains events m → Explains (events ++ [.cut effects torn]) (Effect.applyAll m effects)
  | kept {events : List (Event T)} {m : OrderedMap Bytes T} (effects : List (Effect T))
      (torn : Effect T) :
      Explains events m →
        Explains (events ++ [.cut effects torn]) (torn.apply (Effect.applyAll m effects))

structure Survives (codec : Codec T) (cut : Option Cut) (q : Queue T) (call : Call T) : Prop where
  noCompaction : q.ops + (q.changes codec call).length < compactAt
  noWrap : q.seq + (q.changes codec call).length < 2 ^ 64
  validID : call.validID
  linesFit : LinesFit codec q call
  /-- A cut write leaves nothing of its record, or all of it but perhaps the newline. -/
  whole : ∀ done ch rest written, cut = some ⟨List.length done, written⟩ →
    q.changes codec call = done ++ ch :: rest → written = 0 ∨ (ch.line codec).length ≤ written
  /-- Nothing is appended to a line without its newline. -/
  terminated : q.changes codec call ≠ [] → EndsLine q.wal
  /-- What a delete does not find in memory is not in the log either. -/
  visible : ∀ id, call = .delete id → id ∉ q.items →
    ∀ c, replay codec (some q.wal) = .ok c → id ∉ c.items

def Stored (codec : Codec T) (wal : Bytes) (chs : List (Change T)) : Prop :=
  wal = join (chs.map (Change.line codec)) ∨
    ∃ init last, chs = init ++ [last] ∧
      wal = join (init.map (Change.line codec)) ++ last.line codec

variable {codec : Codec T} {wal : Bytes} {chs : List (Change T)} {c : Contents T} {new : List (Change T)}
  {q : Queue T} {dir : String} {opts : Options}

theorem Stored.replay (h : Stored codec wal chs) (hwritable : ∀ ch ∈ chs, Writable codec ch) :
    replay codec (some wal) = .ok (Contents.applyAll codec {} chs) := by
  rcases h with rfl | ⟨init, last, rfl, rfl⟩
  · exact replay_lines codec chs hwritable
  · apply replay_join_append
    · exact Record.marshal_ne_nil _
    · intro ch hch
      exact (hwritable ch hch).carried.isLine (hwritable ch hch).fits
    · intro c ch hch
      exact replayLine_line c (hwritable ch hch)

theorem Stored.of_endsLine (h : Stored codec wal chs) (hwritable : ∀ ch ∈ chs, Writable codec ch)
    (hend : EndsLine wal) : wal = join (chs.map (Change.line codec)) := by
  rcases h with h | ⟨init, last, rfl, rfl⟩
  · exact h
  · have hlast := (hwritable last (by simp)).carried.isLine (hwritable last (by simp)).fits
    have hne : last.line codec ≠ [] := Record.marshal_ne_nil _
    exfalso
    rcases hend with hnil | hget
    · exact hne (append_eq_nil_iff.mp hnil).2
    · rw [getLast?_append_of_ne_nil _ hne] at hget
      exact hlast.noNewline (mem_of_getLast? hget)

def Contents.values (c : Contents T) : OrderedMap Bytes T := c.items.mapValues Entry.data

theorem values_apply (codec : Codec T) (c : Contents T) (ch : Change T) :
    (c.apply codec ch).values = ch.effect.apply c.values := by
  cases ch with
  | put id seq v old => exact mapValues_put Entry.data c.items id _
  | del id seq => exact mapValues_remove Entry.data c.items id

theorem values_applyAll (codec : Codec T) (c : Contents T) (chs : List (Change T)) :
    (c.applyAll codec chs).values = Effect.applyAll c.values (chs.map Change.effect) := by
  induction chs generalizing c with
  | nil => rfl
  | cons ch chs ih =>
    rw [applyAll_cons, ih, values_apply]
    rfl

structure Ordered (c : Contents T) : Prop where
  rising : c.items.values.Pairwise fun a b => a.seq < b.seq
  below : ∀ e ∈ c.items.values, e.seq ≤ c.seq

theorem Ordered.list_eq (h : Ordered c) : c.list = c.values.values := by
  have hsorted : c.sorted = c.items.values :=
    List.Pairwise.insertionSort_eq (h.rising.imp Nat.le_of_lt)
  rw [Contents.list, hsorted, Contents.values, values_mapValues]

theorem Ordered.apply (h : Ordered c) (codec : Codec T) (ch : Change T)
    (hseq : c.seq < ch.seq) : Ordered (c.apply codec ch) := by
  have hmax : (c.apply codec ch).seq = ch.seq := by
    cases ch <;> exact Nat.max_eq_right hseq.le
  have hsub := values_remove_sublist c.items ch.id
  have hbelow : ∀ e ∈ (c.items.remove ch.id).values, e.seq < ch.seq :=
    fun e he => Nat.lt_of_le_of_lt (h.below e (hsub.subset he)) hseq
  have hitems := apply_items codec c ch
  constructor
  · rw [hitems]
    cases ch with
    | put id seq v old =>
      rw [Change.update, values_put, pairwise_append]
      refine ⟨h.rising.sublist hsub, pairwise_singleton _ _, ?_⟩
      intro a ha b hb
      rw [mem_singleton.mp hb]
      exact hbelow a ha
    | del id seq => exact h.rising.sublist hsub
  · rw [hmax, hitems]
    cases ch with
    | put id seq v old =>
      intro e he
      rw [Change.update, values_put] at he
      rcases mem_append.mp he with he | he
      · exact (hbelow e he).le
      · rw [mem_singleton.mp he]
        exact Nat.le_refl _
    | del id seq => exact fun e he => (hbelow e he).le

theorem Ordered.applyAll (h : Ordered c) (codec : Codec T)
    (chs : List (Change T)) (seq : Nat) (hseq : c.seq ≤ seq) (hnumbered : Numbered seq chs) :
    Ordered (c.applyAll codec chs) ∧ (c.applyAll codec chs).seq ≤ seq + chs.length := by
  induction chs generalizing c seq with
  | nil => exact ⟨h, hseq⟩
  | cons ch chs ih =>
    have hch : (c.apply codec ch).seq ≤ seq + 1 := by
      have hnumber := hnumbered.1
      cases ch <;> exact Nat.max_le.mpr ⟨by omega, hnumber.le⟩
    have hrest := ih (h.apply codec ch (by rw [hnumbered.1]; omega)) (seq + 1) hch hnumbered.2
    rw [length_cons, show seq + (chs.length + 1) = seq + 1 + chs.length by omega]
    exact hrest

structure Disk (codec : Codec T) (wal : Bytes) (seq : Nat) (chs : List (Change T)) : Prop where
  stored : Stored codec wal chs
  writable : ∀ ch ∈ chs, Writable codec ch
  ordered : Ordered (Contents.applyAll codec {} chs)
  seq : (Contents.applyAll codec {} chs).seq ≤ seq

theorem Disk.mono {seq seq' : Nat}
    (h : Disk codec wal seq chs) (hseq : seq ≤ seq') : Disk codec wal seq' chs :=
  ⟨h.stored, h.writable, h.ordered, h.seq.trans hseq⟩

theorem Disk.append {wal' : Bytes} {seq : Nat}
    (h : Disk codec wal seq chs) (hstored : Stored codec wal' (chs ++ new))
    (hnew : ∀ ch ∈ new, Writable codec ch) (hnumbered : Numbered seq new) :
    Disk codec wal' (seq + new.length) (chs ++ new) := by
  obtain ⟨hordered, hseq⟩ := h.ordered.applyAll codec new seq h.seq hnumbered
  refine ⟨hstored, ?_, ?_, ?_⟩
  · intro ch hch
    rcases mem_append.mp hch with hch | hch
    · exact h.writable ch hch
    · exact hnew ch hch
  · rwa [applyAll_append]
  · rwa [applyAll_append]

theorem Disk.write {seq : Nat} (h : Disk codec wal seq chs) (hend : new ≠ [] → EndsLine wal)
    (hnew : ∀ ch ∈ new, Writable codec ch) (hnumbered : Numbered seq new) :
    Disk codec (wal ++ join (new.map (Change.line codec))) (seq + new.length) (chs ++ new) := by
  apply h.append _ hnew hnumbered
  cases new with
  | nil => simpa using h.stored
  | cons ch new =>
    left
    rw [h.stored.of_endsLine h.writable (hend (by simp)), map_append, join_append]

theorem Disk.writeLast {seq written : Nat} {ch : Change T} (h : Disk codec wal seq chs) (hend : EndsLine wal)
    (hch : Writable codec ch) (hseq : ch.seq = seq + 1)
    (hwritten : (ch.line codec).length ≤ written) :
    Disk codec (wal ++ (ch.line codec ++ [newline]).take written) (seq + 1) (chs ++ [ch]) := by
  have hwal := h.stored.of_endsLine h.writable hend
  have hnumbered : Numbered seq [ch] := ⟨hseq, trivial⟩
  refine h.append ?_ (by simpa using hch) hnumbered
  rcases Nat.lt_or_ge (ch.line codec).length written with hlt | hge
  · left
    rw [take_of_length_le (by simp; omega), hwal]
    simp
  · right
    have hlen : written = (ch.line codec).length := by omega
    exact ⟨chs, ch, rfl, by rw [hlen, take_left, hwal]⟩

structure Recoverable (codec : Codec T) (q : Queue T) (events : List (Event T))
    (chs : List (Change T)) : Prop where
  disk : Disk codec q.wal q.seq chs
  explained : Explains events (Contents.applyAll codec {} chs).values
  validIDs : ∀ id ∈ q.items, isValid id = true

theorem isValid_of_mem_commitAll
    (hitems : ∀ id ∈ c.items, isValid id = true) (hchs : ∀ ch ∈ chs, Writable codec ch) :
    ∀ id ∈ (c.commitAll codec chs).items, isValid id = true := by
  intro id hid
  rw [commitAll_items] at hid
  rcases mem_of_mem_update codec chs _ id hid with hmem | ⟨ch, hch, rfl⟩
  · exact hitems id hmem
  · exact (hchs ch hch).isValid_id

theorem refusal_ne_write (codec : Codec T) (q : Queue T) (call : Call T) :
    q.refusal codec call ≠ some .write := by
  cases call with
  | delete id => simp [refusal]
  | put id v =>
    simp only [refusal]
    split
    · simp
    · split <;> simp

theorem effects_of_refusal {call : Call T} {err : Error} (h : q.refusal codec call = some err) :
    (q.changes codec call).map Change.effect = q.evicted codec call := by
  cases call with
  | delete id => cases h
  | put id v =>
    simp only [refusal] at h
    simp only [changes, evicted]
    split at h
    · rename_i hid
      simp [hid]
    · rename_i hid
      split at h
      · rename_i hfull
        simp [hid, hfull]
      · cases h

/-- The records of a call that returned nil are its evictions and its own effect;
only a delete that finds nothing writes nothing. -/
theorem effects_of_returned {call : Call T} (h : q.refusal codec call = none) :
    (q.changes codec call).map Change.effect = q.evicted codec call ++ [call.effect] ∨
      ∃ id, call = .delete id ∧ id ∉ q.items ∧ q.changes codec call = [] := by
  cases call with
  | delete id =>
    by_cases hmem : id ∈ q.items
    · left
      simp [changes, evicted, hmem, Change.effect, Call.effect]
    · exact .inr ⟨id, rfl, hmem, if_neg hmem⟩
  | put id v =>
    left
    simp only [refusal] at h
    split at h
    · cases h
    · rename_i hid
      split at h
      · cases h
      · rename_i hfull
        simp [changes, evicted, hid, hfull, Change.effect, Call.effect]

theorem tear_seq (codec : Codec T) (q : Queue T) (ch : Change T) (written : Nat)
    (h : q.seq + 1 < 2 ^ 64) : (q.tear codec ch written).seq = q.seq + 1 :=
  nextSeq_eq h

section

variable {codec : Codec T} {q : Queue T} {events : List (Event T)} {chs : List (Change T)}
  {cut : Option Cut} {request : Call T}

theorem Recoverable.log (h : Recoverable codec q events chs)
    (hsurvives : Survives codec cut q request) (effects : List (Effect T))
    (heffects : Effect.applyAll (Contents.applyAll codec {} chs).values effects =
      Effect.applyAll (Contents.applyAll codec {} chs).values
        ((q.changes codec request).map Change.effect)) :
    Recoverable codec (q.log codec (q.changes codec request)) (events ++ [.done effects])
      (chs ++ q.changes codec request) := by
  have hwritable := writable_changes h.validIDs hsurvives.validID hsurvives.linesFit
  have hnumbered := numbered_changes codec q request hsurvives.noWrap
  refine ⟨?_, ?_, ?_⟩
  · have hdisk := h.disk.write hsurvives.terminated hwritable hnumbered
    rwa [← commitAll_seq codec q.toContents _ hnumbered] at hdisk
  · rw [applyAll_append, values_applyAll codec _ (q.changes codec request), ← heffects]
    exact .done effects h.explained
  · exact isValid_of_mem_commitAll h.validIDs hwritable

theorem Recoverable.tear (h : Recoverable codec q events chs)
    (hsurvives : Survives codec cut q request) {done rest : List (Change T)} {ch : Change T}
    {written : Nat} (hcut : cut = some ⟨done.length, written⟩)
    (hplan : q.changes codec request = done ++ ch :: rest) :
    ∃ chs', Recoverable codec ((q.log codec done).tear codec ch written)
      (events ++ [.cut (done.map Change.effect) ch.effect]) chs' := by
  have hwritable := writable_changes h.validIDs hsurvives.validID hsurvives.linesFit
  have hnumbered := numbered_changes codec q request hsurvives.noWrap
  have hwrap := hsurvives.noWrap
  have hend : EndsLine q.wal := hsurvives.terminated (by simp [hplan])
  have hwhole := hsurvives.whole done ch rest written hcut hplan
  rw [hplan] at hwritable hnumbered hwrap
  rw [length_append, length_cons] at hwrap
  obtain ⟨hdone, hch⟩ := (numbered_append q.seq done (ch :: rest)).mp hnumbered
  have hseq : (q.log codec done).seq = q.seq + done.length := commitAll_seq codec _ _ hdone
  have htear := tear_seq codec (q.log codec done) ch written (by rw [hseq]; omega)
  have hwritableDone : ∀ ch ∈ done, Writable codec ch := fun ch' h' => hwritable ch' (by simp [h'])
  have hdisk := h.disk.write (fun _ => hend) hwritableDone hdone
  have hvalues : (Contents.applyAll codec {} (chs ++ done)).values =
      Effect.applyAll (Contents.applyAll codec {} chs).values (done.map Change.effect) := by
    rw [applyAll_append, values_applyAll]
  have hvalid : ∀ id ∈ (q.commitAll codec done).items, isValid id = true :=
    isValid_of_mem_commitAll h.validIDs hwritableDone
  rcases hwhole with rfl | hwhole
  · refine ⟨chs ++ done, ?_, ?_, hvalid⟩
    · rw [htear, hseq]
      have hwal : ((q.log codec done).tear codec ch 0).wal = (q.log codec done).wal := by
        simp [Queue.tear]
      rw [hwal]
      exact hdisk.mono (Nat.le_succ _)
    · rw [hvalues]
      exact .lost _ _ h.explained
  · refine ⟨chs ++ done ++ [ch], ?_, ?_, hvalid⟩
    · rw [htear, hseq]
      refine hdisk.writeLast ?_ (hwritable ch (by simp)) hch.1 hwhole
      rw [h.disk.stored.of_endsLine h.disk.writable hend, ← join_append]
      exact endsLine_join _
    · rw [applyAll_append, applyAll_cons, applyAll_nil, values_apply, hvalues]
      exact .kept _ _ h.explained

theorem Recoverable.call (h : Recoverable codec q events chs) {event : Event T}
    (hobserved : Observed codec cut q request event) (hsurvives : Survives codec cut q request) :
    ∃ chs', Recoverable codec (after (q.call codec cut request)) (events ++ [event]) chs' := by
  rcases call_cases codec cut q request hsurvives.noCompaction with hcall | htorn
  · have hafter : after (q.call codec cut request) = q.log codec (q.changes codec request) := by
      rw [hcall]
      cases q.refusal codec request <;> rfl
    rw [hafter]
    cases hobserved with
    | returned hok =>
      have hrefusal : q.refusal codec request = none := by
        cases hr : q.refusal codec request with
        | none => rfl
        | some err =>
          rw [hcall, hr] at hok
          cases hok
      refine ⟨_, h.log hsurvives _ ?_⟩
      rcases effects_of_returned hrefusal with heffects | ⟨id, rfl, hmem, hnone⟩
      · rw [heffects]
      · have habsent := hsurvives.visible id rfl hmem _ (h.disk.stored.replay h.disk.writable)
        rw [hnone]
        apply remove_of_not_mem
        rw [mem_iff_get?, Contents.values, get?_mapValues]
        rw [mem_iff_get?] at habsent
        simpa using habsent
    | refused hfail hne =>
      refine ⟨_, h.log hsurvives _ ?_⟩
      cases hr : q.refusal codec request with
      | none =>
        rw [hcall, hr] at hfail
        cases hfail
      | some err => rw [effects_of_refusal hr]
    | torn hfail hcut hplan =>
      exfalso
      rw [hcall] at hfail
      cases hr : q.refusal codec request with
      | none =>
        rw [hr] at hfail
        cases hfail
      | some err =>
        rw [hr] at hfail
        cases hfail
        exact refusal_ne_write codec q request hr
  · obtain ⟨done, ch, rest, written, hcut, hplan, hcall⟩ := htorn
    rw [hcall]
    cases hobserved with
    | returned hok =>
      rw [hcall] at hok
      cases hok
    | refused hfail hne =>
      rw [hcall] at hfail
      cases hfail
      exact absurd rfl hne
    | torn hfail hcut' hplan' =>
      have hlen := congrArg (Option.map Cut.after) (hcut.symm.trans hcut')
      obtain ⟨hdone, hrest⟩ := append_inj (hplan.symm.trans hplan') (by simpa using hlen)
      cases hdone
      cases hrest
      exact h.tear hsurvives hcut hplan

end

section

variable {codec : Codec T} {q : Queue T}

/-- The effects of the calls that return nil, each made on what the calls before it left. -/
def returned (codec : Codec T) : Queue T → List (Call T) → List (Effect T)
  | _, [] => []
  | q, call :: calls =>
    match q.call codec none call with
    | .ok q' => call.effect :: returned codec q' calls
    | .error (_, q') => returned codec q' calls

end

end Nodra.Queue
