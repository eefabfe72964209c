import Nodra.Queue.Model

/-! What a call means.  `changes` plans the records of a call from the queue it
is made on, `perform` writes a plan record by record, and `call_eq` says that
the code does just that as long as it does not compact. -/
namespace Nodra.Queue
open Lines JsonText List OrderedMap

/-- A record and its update of the map.  `oldBytes` is what a put subtracts from
the byte total for the entry it replaces. -/
inductive Change (T : Type) where
  | put (id : Bytes) (seq : Nat) (v : T) (oldBytes : Int)
  | del (id : Bytes) (seq : Nat)
deriving DecidableEq

variable {T : Type}

def Change.id : Change T → Bytes
  | .put id _ _ _ => id
  | .del id _ => id

def Change.seq : Change T → Nat
  | .put _ seq _ _ => seq
  | .del _ seq => seq

def Change.record (codec : Codec T) : Change T → Record
  | .put id seq v _ => putRecord codec id seq v
  | .del id seq => delRecord id seq

def Change.line (codec : Codec T) (ch : Change T) : Bytes := (ch.record codec).marshal

def Change.update (codec : Codec T) (items : OrderedMap Bytes (Entry T)) :
    Change T → OrderedMap Bytes (Entry T)
  | .put id seq v _ => items.put id ⟨id, seq, v, (codec.marshal v).length⟩
  | .del id _ => items.remove id

def Contents.commit (codec : Codec T) (c : Contents T) : Change T → Contents T
  | .put id seq v oldBytes =>
    { c with seq := seq }.set id seq v (codec.marshal v).length oldBytes
  | .del id seq => { c with seq := seq }.drop id

def Contents.commitAll (codec : Codec T) (c : Contents T) (chs : List (Change T)) : Contents T :=
  chs.foldl (Contents.commit codec) c

def Contents.dropping (codec : Codec T) (settings : Settings) (addItems addBytes : Int) :
    Nat → Contents T → List (Change T)
  | 0, _ => []
  | fuel + 1, c =>
    if c.overLimit settings addItems addBytes ∧ c.items.size > 0 then
      let ch := Change.del c.oldestIDLocked (nextSeq c.seq)
      ch :: Contents.dropping codec settings addItems addBytes fuel (c.commit codec ch)
    else []

def Contents.evictions (codec : Codec T) (c : Contents T) (settings : Settings) (id : Bytes)
    (v : T) : List (Change T) :=
  if settings.policy = .dropOldest then
    c.dropping codec settings (c.addItems id) (c.addBytes codec id v) c.items.size
  else []

def Contents.stillFull (codec : Codec T) (c : Contents T) (settings : Settings) (id : Bytes)
    (v : T) : Bool :=
  (c.commitAll codec (c.evictions codec settings id v)).overLimit settings (c.addItems id)
    (c.addBytes codec id v)

def changes (codec : Codec T) (q : Queue T) : Call T → List (Change T)
  | .put id v =>
    let evicted := q.evictions codec q.settings id v
    if id = [] then []
    else if q.stillFull codec q.settings id v then evicted
    else evicted ++ [.put id (nextSeq (q.commitAll codec evicted).seq) v (q.bytesOf id)]
  | .delete id => if id ∈ q.items then [.del id (nextSeq q.seq)] else []

def refusal (codec : Codec T) (q : Queue T) : Call T → Option Error
  | .put id v =>
    if id = [] then some .idRequired
    else if q.stillFull codec q.settings id v then some .full
    else none
  | .delete _ => none

def report (refusal : Option Error) (q : Queue T) : Outcome T (Queue T) :=
  match refusal with
  | some err => .error (err, q)
  | none => .ok q

def log (codec : Codec T) (q : Queue T) (chs : List (Change T)) : Queue T :=
  { q with
    toContents := q.commitAll codec chs
    wal := q.wal ++ join (chs.map (Change.line codec))
    ops := q.ops + chs.length }

def tear (codec : Codec T) (q : Queue T) (ch : Change T) (written : Nat) : Queue T :=
  { q with
    toContents := q.bump
    wal := q.wal ++ (ch.line codec ++ [newline]).take written }

def perform (codec : Codec T) : Option Cut → Queue T → List (Change T) →
    Outcome T (Queue T × Option Cut)
  | cut, q, [] => .ok (q, cut)
  | cut, q, ch :: chs =>
    match Cut.here cut with
    | some written => .error (.write, q.tear codec ch written)
    | none => perform codec (Cut.later cut) (q.log codec [ch]) chs

variable (codec : Codec T)

theorem commit_items (c : Contents T) (ch : Change T) :
    (c.commit codec ch).items = ch.update codec c.items := by
  cases ch <;> rfl

theorem get?_update_of_ne (items : OrderedMap Bytes (Entry T)) (ch : Change T)
    (id : Bytes) (h : ch.id ≠ id) : (ch.update codec items).get? id = items.get? id := by
  have hne : id ≠ ch.id := fun he => h he.symm
  cases ch with
  | put id' seq v old => exact (get?_put _ _ _ _).trans (if_neg hne)
  | del id' seq => exact (get?_remove _ _ _).trans (if_neg hne)

theorem mem_of_mem_update (chs : List (Change T)) (items : OrderedMap Bytes (Entry T)) (id : Bytes)
    (h : id ∈ chs.foldl (fun items ch => ch.update codec items) items) :
    id ∈ items ∨ ∃ ch ∈ chs, ch.id = id := by
  induction chs generalizing items with
  | nil => exact .inl h
  | cons ch chs ih =>
    rcases ih _ h with hmem | ⟨ch', hch', hid⟩
    · by_cases hid : ch.id = id
      · exact .inr ⟨ch, by simp, hid⟩
      · rw [mem_iff_get?, get?_update_of_ne codec items ch id hid] at hmem
        exact .inl hmem
    · exact .inr ⟨ch', mem_cons_of_mem _ hch', hid⟩

theorem commitAll_items (c : Contents T) (chs : List (Change T)) :
    (c.commitAll codec chs).items =
      chs.foldl (fun items ch => ch.update codec items) c.items := by
  induction chs generalizing c with
  | nil => rfl
  | cons ch chs ih =>
    rw [foldl_cons, ← commit_items]
    exact ih (c.commit codec ch)

@[simp] theorem commitAll_nil (c : Contents T) : c.commitAll codec [] = c := rfl

@[simp] theorem commitAll_cons (c : Contents T) (ch : Change T) (chs : List (Change T)) :
    c.commitAll codec (ch :: chs) = (c.commit codec ch).commitAll codec chs := rfl

@[simp] theorem commitAll_append (c : Contents T) (left right : List (Change T)) :
    c.commitAll codec (left ++ right) = (c.commitAll codec left).commitAll codec right :=
  foldl_append

@[simp] theorem log_nil (q : Queue T) : q.log codec [] = q := by
  simp [log]

theorem log_append (q : Queue T) (left right : List (Change T)) :
    q.log codec (left ++ right) = (q.log codec left).log codec right := by
  simp [log, Nat.add_assoc]

theorem log_cons (q : Queue T) (ch : Change T) (chs : List (Change T)) :
    q.log codec (ch :: chs) = (q.log codec [ch]).log codec chs :=
  log_append codec q [ch] chs

@[simp] theorem log_toContents (q : Queue T) (chs : List (Change T)) :
    (q.log codec chs).toContents = q.commitAll codec chs := rfl

@[simp] theorem log_settings (q : Queue T) (chs : List (Change T)) :
    (q.log codec chs).settings = q.settings := rfl

@[simp] theorem log_ops (q : Queue T) (chs : List (Change T)) :
    (q.log codec chs).ops = q.ops + chs.length := rfl

theorem perform_none (q : Queue T) (chs : List (Change T)) :
    perform codec none q chs = .ok (q.log codec chs, none) := by
  induction chs generalizing q with
  | nil => simp [perform]
  | cons ch chs ih =>
    rw [log_cons]
    exact ih (q.log codec [ch])

theorem perform_some (q : Queue T) (chs : List (Change T)) (cut : Cut) :
    perform codec (some cut) q chs =
      match chs.drop cut.after with
      | [] => .ok (q.log codec chs, some ⟨cut.after - chs.length, cut.written⟩)
      | ch :: _ =>
        .error (.write, (q.log codec (chs.take cut.after)).tear codec ch cut.written) := by
  induction chs generalizing q cut with
  | nil => simp [perform]
  | cons ch chs ih =>
    obtain ⟨k, written⟩ := cut
    cases k with
    | zero => simp [perform, Cut.here]
    | succ k =>
      have hstep : perform codec (some ⟨k + 1, written⟩) q (ch :: chs) =
          perform codec (some ⟨k, written⟩) (q.log codec [ch]) chs := rfl
      rw [hstep, ih]
      simp only [drop_succ_cons, take_succ_cons, length_cons, Nat.add_sub_add_right]
      rw [log_cons codec q ch chs, log_cons codec q ch (chs.take k)]

theorem perform_append (cut : Option Cut) (q : Queue T) (left right : List (Change T)) :
    perform codec cut q (left ++ right) =
      match perform codec cut q left with
      | .error failed => .error failed
      | .ok (q, cut) => perform codec cut q right := by
  induction left generalizing q cut with
  | nil => rfl
  | cons ch left ih =>
    simp only [cons_append, perform]
    cases Cut.here cut with
    | some written => rfl
    | none => exact ih (Cut.later cut) (q.log codec [ch])

theorem appendLocked_none (q : Queue T) (r : Record) (h : q.ops + 1 < compactAt) :
    q.appendLocked codec none r =
      .ok { q with wal := q.wal ++ (r.marshal ++ [newline]), ops := q.ops + 1 } := by
  have hops : ¬ q.ops + 1 ≥ compactAt := by omega
  simp only [appendLocked, if_neg hops]

theorem log_single (q : Queue T) (ch : Change T) :
    q.log codec [ch] =
      { q with
        toContents := q.commit codec ch
        wal := q.wal ++ ((ch.record codec).marshal ++ [newline])
        ops := q.ops + 1 } := by
  simp [log, Contents.commitAll, Change.line]

theorem dropOldest_eq (addItems addBytes : Int) (fuel : Nat) (cut : Option Cut) (q : Queue T)
    (hops : q.ops + (q.dropping codec q.settings addItems addBytes fuel).length < compactAt) :
    q.dropOldest codec addItems addBytes fuel cut =
      perform codec cut q (q.dropping codec q.settings addItems addBytes fuel) := by
  induction fuel generalizing q cut with
  | zero => rfl
  | succ fuel ih =>
    unfold dropOldest Contents.dropping
    by_cases h : q.overLimit q.settings addItems addBytes ∧ q.items.size > 0
    · simp only [Contents.dropping, if_pos h, length_cons] at hops
      simp only [if_pos h, perform]
      cases hcut : Cut.here cut with
      | some written => rfl
      | none =>
        have hround := ih (Cut.later cut) (q.log codec [.del q.oldestIDLocked (nextSeq q.seq)]) (by
          simp only [log_ops, log_settings, log_toContents, commitAll_cons, commitAll_nil,
            length_singleton]
          omega)
        rw [appendLocked_none codec { q with toContents := q.bump } _
          (show q.ops + 1 < compactAt by omega)]
        rw [log_single] at hround ⊢
        exact hround
    · simp only [if_neg h, perform]

theorem dropping_of_not_overLimit (settings : Settings)
    (addItems addBytes : Int) (fuel : Nat) (c : Contents T)
    (h : c.overLimit settings addItems addBytes = false) :
    c.dropping codec settings addItems addBytes fuel = [] := by
  cases fuel with
  | zero => rfl
  | succ fuel => simp [Contents.dropping, h]

variable {codec} {q : Queue T} {ch : Change T}

theorem perform_ok {cut cut' : Option Cut} {q' : Queue T}
    {chs : List (Change T)} (h : perform codec cut q chs = .ok (q', cut')) :
    q' = q.log codec chs := by
  induction chs generalizing q cut with
  | nil =>
    cases h
    rw [log_nil]
  | cons ch chs ih =>
    unfold perform at h
    split at h
    · cases h
    · rw [log_cons]
      exact ih h

theorem makeRoom_eq (codec : Codec T) (cut : Option Cut) (q : Queue T) (id : Bytes) (v : T)
    (hops : q.ops + (q.evictions codec q.settings id v).length < compactAt) :
    q.makeRoom codec cut (q.addItems id) (q.addBytes codec id v) =
      match perform codec cut q (q.evictions codec q.settings id v) with
      | .error failed => .error failed
      | .ok (q', cut') =>
        if q.stillFull codec q.settings id v then .error (.full, q') else .ok (q', cut') := by
  unfold makeRoom Contents.stillFull
  by_cases hover : q.overLimit q.settings (q.addItems id) (q.addBytes codec id v) = true
  · rw [if_pos hover]
    cases hpolicy : q.settings.policy with
    | reject => simp [Contents.evictions, hpolicy, perform, hover]
    | dropNewest => simp [Contents.evictions, hpolicy, perform, hover]
    | dropOldest =>
      simp only [Contents.evictions, hpolicy, if_true] at hops ⊢
      rw [dropOldest_eq codec _ _ _ cut q hops]
      cases hperform : perform codec cut q
          (q.dropping codec q.settings (q.addItems id) (q.addBytes codec id v) q.items.size) with
      | error failed => rfl
      | ok result =>
        obtain ⟨q', cut'⟩ := result
        rw [perform_ok hperform]
        rfl
  · have hnil : q.evictions codec q.settings id v = [] := by
      simp only [Bool.not_eq_true] at hover
      unfold Contents.evictions
      rw [dropping_of_not_overLimit codec _ _ _ _ _ hover, ite_self]
    rw [if_neg hover, hnil]
    exact (if_neg hover).symm

theorem call_eq (codec : Codec T) (cut : Option Cut) (q : Queue T) (call : Call T)
    (hops : q.ops + (q.changes codec call).length < compactAt) :
    q.call codec cut call =
      match perform codec cut q (q.changes codec call) with
      | .error failed => .error failed
      | .ok (q', _) => report (q.refusal codec call) q' := by
  cases call with
  | delete id =>
    by_cases hmem : id ∈ q.items
    · simp only [changes, if_pos hmem, length_singleton] at hops
      simp only [Queue.call, delete, changes, if_pos hmem, perform, refusal]
      cases hcut : Cut.here cut with
      | some written => rfl
      | none =>
        rw [appendLocked_none codec { q with toContents := q.bump } _ hops, log_single]
        rfl
    · simp only [Queue.call, delete, changes, if_neg hmem, perform, refusal, report]
  | put id v =>
    by_cases hid : id = []
    · simp only [Queue.call, put, changes, refusal, if_pos hid, perform, report]
    by_cases hfull : q.stillFull codec q.settings id v = true
    · simp only [changes, if_neg hid, if_pos hfull] at hops
      simp only [Queue.call, put, changes, refusal, if_neg hid, if_pos hfull]
      rw [makeRoom_eq codec cut q id v hops]
      simp only [if_pos hfull]
      cases perform codec cut q (q.evictions codec q.settings id v) with
      | error failed => rfl
      | ok result => rfl
    · simp only [changes, if_neg hid, if_neg hfull, length_append,
        length_singleton] at hops
      simp only [Queue.call, put, changes, refusal, if_neg hid, if_neg hfull]
      rw [makeRoom_eq codec cut q id v (by omega), perform_append]
      simp only [if_neg hfull]
      cases hperform : perform codec cut q (q.evictions codec q.settings id v) with
      | error failed => rfl
      | ok result =>
        obtain ⟨q', cut'⟩ := result
        have hq' := perform_ok hperform
        have hnext : nextSeq (q.commitAll codec (q.evictions codec q.settings id v)).seq =
            nextSeq q'.seq := by rw [hq', log_toContents]
        simp only [perform, hnext]
        cases hcut : Cut.here cut' with
        | some written => rfl
        | none =>
          rw [appendLocked_none codec { q' with toContents := q'.bump } _
            (by rw [hq']; simp only [log_ops]; omega), log_single]
          rfl

theorem call_cases (codec : Codec T) (cut : Option Cut) (q : Queue T) (call : Call T)
    (hops : q.ops + (q.changes codec call).length < compactAt) :
    q.call codec cut call = report (q.refusal codec call) (q.log codec (q.changes codec call)) ∨
      ∃ done ch rest written, cut = some ⟨done.length, written⟩ ∧
        q.changes codec call = done ++ ch :: rest ∧
        q.call codec cut call = .error (.write, (q.log codec done).tear codec ch written) := by
  have hcall := call_eq codec cut q call hops
  cases cut with
  | none =>
    rw [perform_none] at hcall
    exact .inl hcall
  | some cut =>
    rw [perform_some] at hcall
    cases hdrop : (q.changes codec call).drop cut.after with
    | nil =>
      rw [hdrop] at hcall
      exact .inl hcall
    | cons ch rest =>
      have hlt : cut.after < (q.changes codec call).length := by
        by_contra hge
        rw [drop_eq_nil_of_le (by omega)] at hdrop
        cases hdrop
      rw [hdrop] at hcall
      refine .inr ⟨(q.changes codec call).take cut.after, ch, rest, cut.written, ?_, ?_, hcall⟩
      · rw [length_take_of_le hlt.le]
      · rw [← hdrop, take_append_drop]

theorem after_call_none (codec : Codec T) (q : Queue T) (call : Call T)
    (hops : q.ops + (q.changes codec call).length < compactAt) :
    after (q.call codec none call) = q.log codec (q.changes codec call) := by
  rw [call_eq codec none q call hops, perform_none]
  cases q.refusal codec call <;> rfl

private theorem foldl_oldest_mem (entries : List (Bytes × Entry T)) (best : Bytes × Nat) :
    let result := entries.foldl
      (fun best entry =>
        if best.1 = [] ∨ entry.2.seq < best.2 then (entry.1, entry.2.seq) else best) best
    result.1 = best.1 ∨ result.1 ∈ entries.map Prod.fst := by
  induction entries generalizing best with
  | nil => exact .inl rfl
  | cons entry entries ih =>
    simp only [foldl_cons, map_cons, mem_cons]
    split
    · rcases ih (entry.1, entry.2.seq) with h | h
      · exact .inr (.inl h)
      · exact .inr (.inr h)
    · rcases ih best with h | h
      · exact .inl h
      · exact .inr (.inr h)

theorem oldestIDLocked_mem (c : Contents T) (h : c.items.size > 0) :
    c.oldestIDLocked ∈ c.items := by
  rw [mem_iff_keys]
  unfold Contents.oldestIDLocked OrderedMap.keys
  cases hentries : c.items.entries with
  | nil => simp [OrderedMap.size, hentries] at h
  | cons entry entries =>
    rw [foldl_cons, if_pos (.inl rfl), map_cons, mem_cons]
    exact foldl_oldest_mem entries (entry.1, entry.2.seq)

theorem dropping_ends (codec : Codec T) (settings : Settings) (addItems addBytes : Int)
    (fuel : Nat) (c : Contents T) (h : c.items.size ≤ fuel) :
    let c' := c.commitAll codec (c.dropping codec settings addItems addBytes fuel)
    ¬ (c'.overLimit settings addItems addBytes ∧ c'.items.size > 0) := by
  induction fuel generalizing c with
  | zero =>
    intro c' hc'
    have hsize : c'.items.size ≤ 0 := h
    omega
  | succ fuel ih =>
    unfold Contents.dropping
    by_cases hover : c.overLimit settings addItems addBytes ∧ c.items.size > 0
    · rw [if_pos hover]
      apply ih
      have hsize := size_remove_of_mem (oldestIDLocked_mem c hover.2)
      simp only [Contents.commit, Contents.drop]
      omega
    · rw [if_neg hover]
      exact hover

theorem of_mem_dropping (codec : Codec T) (settings : Settings) (addItems addBytes : Int)
    (fuel : Nat) (c : Contents T) (ch : Change T)
    (h : ch ∈ c.dropping codec settings addItems addBytes fuel) :
    ch = .del ch.id ch.seq ∧ ch.id ∈ c.items ∧ ch.seq < 2 ^ 64 := by
  induction fuel generalizing c with
  | zero => simp [Contents.dropping] at h
  | succ fuel ih =>
    unfold Contents.dropping at h
    split at h
    · rename_i hover
      rcases mem_cons.mp h with rfl | h
      · exact ⟨rfl, oldestIDLocked_mem c hover.2, Nat.mod_lt _ (by decide)⟩
      · have ⟨hdel, hmem, hseq⟩ := ih _ h
        exact ⟨hdel, (mem_remove.mp hmem).2, hseq⟩
    · simp at h

theorem of_mem_evictions {c : Contents T} {settings : Settings} {id : Bytes}
    {v : T} (h : ch ∈ c.evictions codec settings id v) :
    ch = .del ch.id ch.seq ∧ ch.id ∈ c.items ∧ ch.seq < 2 ^ 64 := by
  unfold Contents.evictions at h
  split at h
  · exact of_mem_dropping codec _ _ _ _ _ _ h
  · simp at h

theorem of_mem_changes {call : Call T} (h : ch ∈ q.changes codec call) :
    ch.seq < 2 ^ 64 ∧
      ((ch = .del ch.id ch.seq ∧ ch.id ∈ q.items) ∨
        ∃ v old, call = .put ch.id v ∧ ch = .put ch.id ch.seq v old) := by
  cases call with
  | delete id =>
    simp only [changes] at h
    split at h
    · rename_i hmem
      rw [mem_singleton.mp h]
      exact ⟨Nat.mod_lt _ (by decide), .inl ⟨rfl, hmem⟩⟩
    · simp at h
  | put id v =>
    have hevicted (hmem : ch ∈ q.evictions codec q.settings id v) :
        ch.seq < 2 ^ 64 ∧ ch = .del ch.id ch.seq ∧ ch.id ∈ q.items := by
      have ⟨hdel, hitem, hseq⟩ := of_mem_evictions hmem
      exact ⟨hseq, hdel, hitem⟩
    simp only [changes] at h
    split at h
    · simp at h
    · split at h
      · exact ⟨(hevicted h).1, .inl (hevicted h).2⟩
      · rcases mem_append.mp h with hmem | hmem
        · exact ⟨(hevicted hmem).1, .inl (hevicted hmem).2⟩
        · rw [mem_singleton.mp hmem]
          exact ⟨Nat.mod_lt _ (by decide), .inr ⟨v, _, rfl, rfl⟩⟩

/-- The records of a call are numbered from the sequence number of the queue on. -/
def Numbered : Nat → List (Change T) → Prop
  | _, [] => True
  | seq, ch :: chs => ch.seq = seq + 1 ∧ Numbered (seq + 1) chs

theorem numbered_append (seq : Nat) (left right : List (Change T)) :
    Numbered seq (left ++ right) ↔ Numbered seq left ∧ Numbered (seq + left.length) right := by
  induction left generalizing seq with
  | nil => simp [Numbered]
  | cons ch left ih =>
    simp only [cons_append, Numbered, ih, length_cons, and_assoc]
    rw [show seq + 1 + left.length = seq + (left.length + 1) by omega]

theorem commit_seq (codec : Codec T) (c : Contents T) (ch : Change T) :
    (c.commit codec ch).seq = ch.seq := by
  cases ch <;> rfl

theorem commitAll_seq (codec : Codec T) (c : Contents T) (chs : List (Change T))
    (h : Numbered c.seq chs) : (c.commitAll codec chs).seq = c.seq + chs.length := by
  induction chs generalizing c with
  | nil => rfl
  | cons ch chs ih =>
    have hseq : (c.commit codec ch).seq = c.seq + 1 := (commit_seq codec c ch).trans h.1
    rw [commitAll_cons, ih _ (by rw [hseq]; exact h.2), hseq, length_cons]
    omega

theorem get?_commitAll_of_ne (codec : Codec T) (c : Contents T) (chs : List (Change T))
    (id : Bytes) (h : ∀ ch ∈ chs, ch.id ≠ id) :
    (c.commitAll codec chs).items.get? id = c.items.get? id := by
  induction chs generalizing c with
  | nil => rfl
  | cons ch chs ih =>
    rw [commitAll_cons, ih _ fun ch' hch' => h ch' (mem_cons_of_mem _ hch'), commit_items]
    exact get?_update_of_ne codec c.items ch id (h ch (by simp))

theorem bytesOf_commitAll_of_ne (codec : Codec T) (c : Contents T) (chs : List (Change T))
    (id : Bytes) (h : ∀ ch ∈ chs, ch.id ≠ id) :
    (c.commitAll codec chs).bytesOf id = c.bytesOf id := by
  unfold Contents.bytesOf
  rw [get?_commitAll_of_ne codec c chs id h]

theorem nextSeq_eq {seq : Nat} (h : seq + 1 < 2 ^ 64) : nextSeq seq = seq + 1 :=
  Nat.mod_eq_of_lt h

theorem numbered_dropping (codec : Codec T) (settings : Settings) (addItems addBytes : Int)
    (fuel : Nat) (c : Contents T)
    (h : c.seq + (c.dropping codec settings addItems addBytes fuel).length < 2 ^ 64) :
    Numbered c.seq (c.dropping codec settings addItems addBytes fuel) := by
  induction fuel generalizing c with
  | zero => trivial
  | succ fuel ih =>
    unfold Contents.dropping at h ⊢
    split
    · rename_i hover
      simp only [if_pos hover, length_cons] at h
      have hseq : (c.commit codec (.del c.oldestIDLocked (nextSeq c.seq))).seq = c.seq + 1 := by
        rw [commit_seq]
        exact nextSeq_eq (by omega)
      refine ⟨nextSeq_eq (by omega), ?_⟩
      rw [← hseq]
      apply ih
      rw [hseq]
      omega
    · trivial

theorem numbered_evictions (codec : Codec T) (c : Contents T) (settings : Settings) (id : Bytes)
    (v : T) (h : c.seq + (c.evictions codec settings id v).length < 2 ^ 64) :
    Numbered c.seq (c.evictions codec settings id v) := by
  unfold Contents.evictions at h ⊢
  split
  · rename_i hpolicy
    rw [if_pos hpolicy] at h
    exact numbered_dropping codec _ _ _ _ _ h
  · trivial

theorem numbered_changes (codec : Codec T) (q : Queue T) (call : Call T)
    (h : q.seq + (q.changes codec call).length < 2 ^ 64) :
    Numbered q.seq (q.changes codec call) := by
  cases call with
  | delete id =>
    simp only [changes] at h ⊢
    split
    · rename_i hmem
      rw [if_pos hmem] at h
      exact ⟨nextSeq_eq h, trivial⟩
    · trivial
  | put id v =>
    simp only [changes] at h ⊢
    by_cases hid : id = []
    · rw [if_pos hid]
      trivial
    by_cases hfull : q.stillFull codec q.settings id v = true
    · simp only [if_neg hid, if_pos hfull] at h ⊢
      exact numbered_evictions codec _ _ _ _ h
    · simp only [if_neg hid, if_neg hfull, length_append, length_singleton] at h ⊢
      have hevicted := numbered_evictions codec q.toContents q.settings id v (by omega)
      rw [numbered_append]
      refine ⟨hevicted, ?_, trivial⟩
      rw [commitAll_seq codec _ _ hevicted]
      exact nextSeq_eq (by omega)

end Nodra.Queue
