import Nodra.Lib.Run
import Nodra.Queue.Changes

/-! The log and the memory of a queue agree: reopening `queue.wal` after a run
of calls gives back the queue of the run, as long as no append compacts the log
and no put evicts its own id. -/
namespace Nodra.Queue
open Lines JsonString JsonText Relation List

variable {T : Type}

def Contents.apply (codec : Codec T) (c : Contents T) : Change T → Contents T
  | .put id seq v _ =>
    { c with seq := max c.seq seq }.set id seq v (codec.marshal v).length (c.bytesOf id)
  | .del id seq => { c with seq := max c.seq seq }.drop id

def Contents.applyAll (codec : Codec T) (c : Contents T) (chs : List (Change T)) : Contents T :=
  chs.foldl (Contents.apply codec) c

@[simp] theorem applyAll_nil (codec : Codec T) (c : Contents T) : c.applyAll codec [] = c := rfl

@[simp] theorem applyAll_cons (codec : Codec T) (c : Contents T) (ch : Change T) (chs : List (Change T)) :
    c.applyAll codec (ch :: chs) = (c.apply codec ch).applyAll codec chs := rfl

@[simp] theorem applyAll_append (codec : Codec T) (c : Contents T) (left right : List (Change T)) :
    c.applyAll codec (left ++ right) = (c.applyAll codec left).applyAll codec right :=
  foldl_append

structure Writable (codec : Codec T) (ch : Change T) : Prop where
  carried : (ch.record codec).Carried
  fits : (ch.line codec).length < scanLimit

variable {codec : Codec T} {ch : Change T} {chs : List (Change T)} {q q' : Queue T} {dir : String}
  {opts : Options}

theorem Writable.isValid_id (h : Writable codec ch) :
    isValid ch.id = true := by
  have hid := h.carried.id
  cases ch <;> exact hid

theorem replayLine_line (c : Contents T)
    (h : Writable codec ch) : c.replayLine codec (ch.line codec) = .ok (c.apply codec ch) := by
  unfold Contents.replayLine Change.line
  rw [Record.unmarshal_marshal h.carried]
  cases ch with
  | put id seq v old =>
    simp only [Change.record, putRecord, codec.unmarshal_marshal]
    rfl
  | del id seq => rfl

theorem replay_lines (codec : Codec T) (chs : List (Change T)) (h : ∀ ch ∈ chs, Writable codec ch) :
    replay codec (some (join (chs.map (Change.line codec)))) =
      .ok (Contents.applyAll codec {} chs) := by
  apply replay_join
  · intro ch hch
    exact (h ch hch).carried.isLine (h ch hch).fits
  · intro c ch hch
    exact replayLine_line c (h ch hch)

theorem apply_items (codec : Codec T) (c : Contents T) (ch : Change T) :
    (c.apply codec ch).items = ch.update codec c.items := by
  cases ch <;> rfl

theorem applyAll_items (codec : Codec T) (c : Contents T) (chs : List (Change T)) :
    (c.applyAll codec chs).items =
      chs.foldl (fun items ch => ch.update codec items) c.items := by
  induction chs generalizing c with
  | nil => rfl
  | cons ch chs ih =>
    rw [foldl_cons, ← apply_items]
    exact ih (c.apply codec ch)

theorem isValid_of_mem_applyAll (h : ∀ ch ∈ chs, Writable codec ch) {id : Bytes}
    (hmem : id ∈ (Contents.applyAll codec {} chs).items) : isValid id = true := by
  rw [applyAll_items] at hmem
  rcases mem_of_mem_update codec chs _ id hmem with hempty | ⟨ch, hch, hid⟩
  · exact absurd hempty (OrderedMap.not_mem_empty id)
  · rw [← hid]
    exact (h ch hch).isValid_id

structure Logged (codec : Codec T) (q : Queue T) (chs : List (Change T)) : Prop where
  wal : q.wal = join (chs.map (Change.line codec))
  contents : q.toContents = Contents.applyAll codec {} chs
  writable : ∀ ch ∈ chs, Writable codec ch

theorem Logged.log {new : List (Change T)} (h : Logged codec q chs) (hnew : ∀ ch ∈ new, Writable codec ch)
    (hsame : q.commitAll codec new = q.applyAll codec new) :
    Logged codec (q.log codec new) (chs ++ new) where
  wal := by
    rw [map_append, join_append, ← h.wal]
    rfl
  contents := by
    rw [log_toContents, hsame, applyAll_append, ← h.contents]
  writable := by
    intro ch hch
    rcases mem_append.mp hch with hch | hch
    · exact h.writable ch hch
    · exact hnew ch hch

def LinesFit (codec : Codec T) (q : Queue T) (call : Call T) : Prop :=
  ∀ ch ∈ q.changes codec call, (ch.line codec).length < scanLimit

def Call.validID : Call T → Prop
  | .put id _ => isValid id = true
  | .delete _ => True

theorem writable_changes {call : Call T} (hitems : ∀ id ∈ q.items, isValid id = true) (hid : call.validID)
    (hfit : LinesFit codec q call) : ∀ ch ∈ q.changes codec call, Writable codec ch := by
  intro ch hch
  refine ⟨?_, hfit ch hch⟩
  obtain ⟨hseq, ⟨hdel, hmem⟩ | ⟨v, old, rfl, hput⟩⟩ := of_mem_changes hch
  · rw [hdel]
    exact ⟨.inr rfl, hitems _ hmem, hseq, .inl rfl⟩
  · rw [hput]
    exact ⟨.inl rfl, hid, hseq, .inr (codec.isCompact_marshal v)⟩

def KeepsSelf (codec : Codec T) (q : Queue T) : Call T → Prop
  | .put id v => ∀ ch ∈ q.evictions codec q.settings id v, ch.id ≠ id
  | .delete _ => True

theorem commit_del_eq_apply (codec : Codec T) (c : Contents T) (id : Bytes) (seq : Nat)
    (h : seq = c.seq + 1) : c.commit codec (.del id seq) = c.apply codec (.del id seq) := by
  have hmax : max c.seq seq = seq := by omega
  simp only [Contents.commit, Contents.apply, hmax]

theorem commit_put_eq_apply (codec : Codec T) (c : Contents T) (id : Bytes) (seq : Nat) (v : T)
    (h : seq = c.seq + 1) :
    c.commit codec (.put id seq v (c.bytesOf id)) =
      c.apply codec (.put id seq v (c.bytesOf id)) := by
  have hmax : max c.seq seq = seq := by omega
  simp only [Contents.commit, Contents.apply, hmax]

theorem commitAll_evictions (codec : Codec T) (chs : List (Change T)) (c : Contents T)
    (hnumbered : Numbered c.seq chs) (hdel : ∀ ch ∈ chs, ch = .del ch.id ch.seq) :
    c.commitAll codec chs = c.applyAll codec chs := by
  induction chs generalizing c with
  | nil => rfl
  | cons ch chs ih =>
    have hch : c.commit codec ch = c.apply codec ch := by
      rw [hdel ch (by simp)]
      exact commit_del_eq_apply codec c _ _ hnumbered.1
    have hseq : (c.commit codec ch).seq = c.seq + 1 := (commit_seq codec c ch).trans hnumbered.1
    rw [commitAll_cons, applyAll_cons, ← hch]
    apply ih
    · rw [hseq]
      exact hnumbered.2
    · exact fun ch' hch' => hdel ch' (mem_cons_of_mem _ hch')

theorem commitAll_changes (codec : Codec T) (q : Queue T) (call : Call T)
    (hseq : q.seq + (q.changes codec call).length < 2 ^ 64) (hself : KeepsSelf codec q call) :
    q.commitAll codec (q.changes codec call) = q.applyAll codec (q.changes codec call) := by
  have hnumbered := numbered_changes codec q call hseq
  cases call with
  | delete id =>
    simp only [changes] at hnumbered ⊢
    split
    · rename_i hmem
      rw [if_pos hmem] at hnumbered
      exact commit_del_eq_apply codec _ _ _ hnumbered.1
    · rfl
  | put id v =>
    simp only [changes] at hnumbered ⊢
    by_cases hid : id = []
    · rw [if_pos hid]
      rfl
    have hdel : ∀ ch ∈ q.evictions codec q.settings id v, ch = .del ch.id ch.seq :=
      fun ch hch => (of_mem_evictions hch).1
    by_cases hfull : q.stillFull codec q.settings id v = true
    · simp only [if_neg hid, if_pos hfull] at hnumbered ⊢
      exact commitAll_evictions codec _ _ hnumbered hdel
    · simp only [if_neg hid, if_neg hfull] at hnumbered ⊢
      rw [numbered_append] at hnumbered
      rw [commitAll_append, applyAll_append, ← commitAll_evictions codec _ _ hnumbered.1 hdel,
        ← bytesOf_commitAll_of_ne codec q.toContents _ id hself]
      apply commit_put_eq_apply
      exact hnumbered.2.1.trans (by rw [commitAll_seq codec _ _ hnumbered.1])

/-- A call that keeps the log and the memory in step: its records do not reach
the compaction threshold, it does not evict the id it puts, and that id is UTF-8. -/
structure InStep (codec : Codec T) (q : Queue T) (call : Call T) : Prop where
  noCompaction : q.ops + (q.changes codec call).length < compactAt
  keepsSelf : KeepsSelf codec q call
  validID : call.validID

inductive Step (codec : Codec T) : Queue T → Queue T → Prop where
  | call (q : Queue T) (call : Call T) (hfit : LinesFit codec q call)
      (hstep : InStep codec q call) : Step codec q (after (q.call codec none call))

/-- Reopening the directory gives back the queue: the same values under the same
ids, the same order and the same byte total. -/
def Reopens (codec : Codec T) (dir : String) (opts : Options) (q : Queue T) : Prop :=
  ∃ q', openWithOptions codec dir opts (some q.wal) = .ok q' ∧
    (∀ id, q'.get id = q.get id) ∧ q'.list = q.list ∧ q'.bytes = q.bytes

structure Consistent (codec : Codec T) (q : Queue T) : Prop where
  logged : ∃ chs, Logged codec q chs
  seq : q.seq = q.ops

theorem Step.consistent (h : Step codec q q') (hq : Consistent codec q) : Consistent codec q' := by
  cases h with
  | call call hfit hstep =>
    obtain ⟨chs, hlogged⟩ := hq.logged
    have hops := hstep.noCompaction
    have hseq : q.seq + (q.changes codec call).length < 2 ^ 64 := by
      rw [hq.seq]
      simp only [compactAt] at hops
      omega
    have hitems : ∀ id ∈ q.items, isValid id = true := by
      rw [hlogged.contents]
      exact fun id => isValid_of_mem_applyAll hlogged.writable
    rw [after_call_none codec q call hops]
    refine ⟨⟨_, hlogged.log (writable_changes hitems hstep.validID hfit)
      (commitAll_changes codec q call hseq hstep.keepsSelf)⟩, ?_⟩
    rw [log_toContents, commitAll_seq codec _ _ (numbered_changes codec q call hseq), hq.seq,
      log_ops]

theorem openWithOptions_ok {wal wal' : Option Bytes} {c : Contents T}
    (h : openWithOptions codec dir opts wal = .ok q) (hreplay : replay codec wal' = .ok c) :
    ∃ q', openWithOptions codec dir opts wal' = .ok q' ∧ q'.toContents = c := by
  unfold openWithOptions at h ⊢
  split at h
  · cases h
  · rename_i hdir
    split at h
    · cases h
    · rename_i policy hpolicy
      rw [if_neg hdir, hreplay]
      exact ⟨_, rfl, rfl⟩

theorem openWithOptions_none (h : openWithOptions codec dir opts none = .ok q) :
    q.toContents = {} ∧ q.ops = 0 ∧ q.wal = [] := by
  unfold openWithOptions at h
  split at h
  · cases h
  · split at h
    · cases h
    · cases h
      exact ⟨rfl, rfl, rfl⟩

/-- Durability: in a run of calls that keep in step, on a queue opened on an
empty directory, every state is the one a fresh open rebuilds from the log. -/
theorem reopens_of_run (codec : Codec T) (dir : String) (opts : Options) (q₀ q : Queue T)
    (hopen : openWithOptions codec dir opts none = .ok q₀)
    (hrun : ReflTransGen (Step codec) q₀ q) : Reopens codec dir opts q := by
  obtain ⟨hcontents, hops, hwal⟩ := openWithOptions_none hopen
  have hstart : Consistent codec q₀ := by
    refine ⟨⟨[], ?_, ?_, by simp⟩, ?_⟩
    · rw [hwal]
      rfl
    · rw [hcontents]
      rfl
    · rw [hcontents, hops]
  obtain ⟨⟨chs, hlogged⟩, _⟩ := Run.invariant (fun _ _ hstep => hstep.consistent) hrun hstart
  have hreplay : replay codec (some q.wal) = .ok q.toContents := by
    rw [hlogged.wal, replay_lines codec chs hlogged.writable, ← hlogged.contents]
  obtain ⟨q', hq', hsame⟩ := openWithOptions_ok hopen hreplay
  refine ⟨q', hq', fun id => ?_, ?_, ?_⟩ <;> rw [hsame]

def boolCodec : Codec Bool where
  marshal v := if v then ascii "true" else ascii "false"
  unmarshal text :=
    if text = ascii "true" then some true
    else if text = ascii "false" then some false
    else none
  unmarshal_marshal := by decide
  isCompact_marshal v := by
    cases v
    · exact ⟨by decide, by decide, by decide +kernel⟩
    · exact ⟨by decide, by decide, by decide +kernel⟩

def freshQueue : Queue Bool := { settings := ⟨0, 0, .reject⟩ }

theorem reopens_after_one_put :
    Reopens boolCodec "queue" {} (after (freshQueue.call boolCodec none (.put (ascii "a") true))) :=
  reopens_of_run boolCodec "queue" {} freshQueue _ rfl
    (.single (.call freshQueue (.put (ascii "a") true)
      (by
        unfold LinesFit
        decide)
      ⟨by decide, by
        unfold KeepsSelf
        decide, by
        unfold Call.validID
        decide⟩))

private theorem overLimit_unlimited (c : Contents T) (settings : Settings)
    (addItems addBytes : Int) (hitems : settings.maxItems ≤ 0) (hbytes : settings.maxBytes ≤ 0) :
    c.overLimit settings addItems addBytes = false := by
  simp only [Contents.overLimit, gt_iff_lt, Bool.or_eq_false_iff, Bool.and_eq_false_iff,
    decide_eq_false_iff_not]
  omega

theorem call_put_unlimited (codec : Codec T) (q : Queue T) (id : Bytes) (v : T)
    (hid : id ≠ []) (hitems : q.settings.maxItems ≤ 0) (hbytes : q.settings.maxBytes ≤ 0)
    (hops : q.ops + 1 < compactAt) :
    q.call codec none (.put id v) =
      .ok (q.log codec [.put id (nextSeq q.seq) v (q.bytesOf id)]) := by
  have hevict : q.evictions codec q.settings id v = [] := by
    unfold Contents.evictions
    rw [dropping_of_not_overLimit codec _ _ _ _ _ (overLimit_unlimited _ _ _ _ hitems hbytes),
      ite_self]
  have hfull : q.stillFull codec q.settings id v = false :=
    overLimit_unlimited _ _ _ _ hitems hbytes
  have hchanges : q.changes codec (.put id v) =
      [.put id (nextSeq q.seq) v (q.bytesOf id)] := by
    simp [changes, hid, hevict, hfull]
  have hrefusal : q.refusal codec (.put id v) = none := by
    simp [refusal, hid, hfull]
  rw [call_eq codec none q _ (by rw [hchanges]; exact hops), perform_none, hchanges, hrefusal]
  rfl

/-- A put whose append reaches the threshold returns nil, and leaves a log of the
entries that were there before it. -/
theorem call_put_compacts (codec : Codec T) (q : Queue T) (id : Bytes) (v : T)
    (hid : id ≠ []) (hitems : q.settings.maxItems ≤ 0) (hbytes : q.settings.maxBytes ≤ 0)
    (hops : compactAt ≤ q.ops + 1) :
    ∃ q', q.call codec none (.put id v) = .ok q' ∧ q'.get id = some v ∧
      q'.wal = join (q.sorted.map fun e => (putRecord codec e.id e.seq e.data).marshal) := by
  have hover := overLimit_unlimited q.toContents q.settings (q.addItems id)
    (q.addBytes codec id v) hitems hbytes
  have hroom : q.makeRoom codec none (q.addItems id) (q.addBytes codec id v) = .ok (q, none) := by
    rw [makeRoom, if_neg (by simp [hover])]
  have happend : { q with toContents := q.bump }.appendLocked codec none
      (putRecord codec id (nextSeq q.seq) v) = .ok ({ q with
        toContents := q.bump
        wal := q.wal ++ ((putRecord codec id (nextSeq q.seq) v).marshal ++ [newline])
        ops := q.ops + 1 }.compactLocked codec) := if_pos hops
  simp only [Queue.call, put, if_neg hid, hroom, Cut.here, Contents.bump] at happend ⊢
  rw [happend]
  refine ⟨_, rfl, ?_, rfl⟩
  simp [Contents.get, Contents.set]

def callAll (codec : Codec T) (q : Queue T) (calls : List (Call T)) : Outcome T (Queue T) :=
  calls.foldlM (fun q call => q.call codec none call) q

theorem callAll_concat {calls : List (Call T)} (call : Call T) (h : q.callAll codec calls = .ok q') :
    q.callAll codec (calls ++ [call]) = q'.call codec none call := by
  unfold callAll at h ⊢
  rw [foldlM_append, h]
  exact bind_pure (q'.call codec none call)

theorem callAll_replicate_put (n : Nat) (h : n + 1 < compactAt) :
    ∃ q, freshQueue.callAll boolCodec (List.replicate (n + 1) (.put (ascii "a") true)) = .ok q ∧
      q.settings = freshQueue.settings ∧ q.ops = n + 1 ∧ q.seq = n + 1 ∧
      q.items = OrderedMap.empty.put (ascii "a") ⟨ascii "a", n + 1, true, 4⟩ := by
  induction n with
  | zero => exact ⟨_, rfl, rfl, rfl, rfl, by decide⟩
  | succ n ih =>
    obtain ⟨q, hcalls, hsettings, hops, hseq, hitems⟩ := ih (by omega)
    have hseq1 : q.seq + 1 < 2 ^ 64 := by
      simp only [compactAt] at h
      omega
    have hput := call_put_unlimited boolCodec q (ascii "a") true (by decide)
      (by rw [hsettings]; decide) (by rw [hsettings]; decide) (by rw [hops]; exact h)
    refine ⟨q.log boolCodec [.put (ascii "a") (nextSeq q.seq) true (q.bytesOf (ascii "a"))],
      ?_, hsettings, ?_, ?_, ?_⟩
    · rw [replicate_succ', callAll_concat _ hcalls, hput]
    · rw [log_ops, hops]
      rfl
    · rw [log_toContents, commitAll_cons, commitAll_nil, commit_seq]
      exact (nextSeq_eq hseq1).trans (by omega)
    · change q.items.put (ascii "a") ⟨ascii "a", nextSeq q.seq, true, 4⟩ = _
      rw [ nextSeq_eq hseq1, hseq, hitems, OrderedMap.put_put]

/-- After 4095 puts of one id the put of another compacts the log before it
reaches the map: it returns nil, and a fresh open does not have its entry. -/
theorem put_lost_at_compaction :
    openWithOptions boolCodec "queue" {} none = .ok freshQueue ∧
      ∃ q, freshQueue.callAll boolCodec
          (List.replicate 4095 (.put (ascii "a") true) ++ [.put (ascii "b") true]) = .ok q ∧
        ¬ Reopens boolCodec "queue" {} q := by
  obtain ⟨q, hcalls, hsettings, hops, -, hitems⟩ := callAll_replicate_put 4094 (by decide)
  obtain ⟨q', hput, hget, hwal⟩ := call_put_compacts boolCodec q (ascii "b") true
    (by decide) (by rw [hsettings]; decide) (by rw [hsettings]; decide) (by rw [hops]; decide)
  have hempty : openWithOptions boolCodec "queue" {} none = .ok freshQueue := rfl
  refine ⟨hempty, q', (callAll_concat _ hcalls).trans hput, ?_⟩
  rintro ⟨q'', hopen, hsame, -, -⟩
  have hlog : q'.wal = join ([Change.put (ascii "a") 4095 true 0].map (Change.line boolCodec)) := by
    rw [hwal, Contents.sorted, hitems]
    decide
  have hreplay := replay_lines boolCodec [.put (ascii "a") 4095 true 0] (by
    intro ch hch
    rw [mem_singleton.mp hch]
    exact ⟨⟨.inl rfl, by decide, by decide, .inr (boolCodec.isCompact_marshal true)⟩,
      by decide⟩)
  obtain ⟨q₁, hopen₁, hcontents⟩ := openWithOptions_ok hempty hreplay
  rw [hlog, hopen₁] at hopen
  cases hopen
  have hlost : q''.get (ascii "b") = none := by
    rw [hcontents]
    decide
  rw [hsame, hget] at hlost
  cases hlost

end Nodra.Queue
