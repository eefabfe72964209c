import Nodra.Queue.DropOldest
import Nodra.Queue.Postgres

/-! The two queues of one client, side by side: the file and the table, both with the policy
`reject`.  The size of a value is the length of its JSON in both, and no write fails. -/
namespace Nodra.PostgresQueue
open Lines JsonText Queue

variable {T : Type} (codec : Codec T) (opts : Queue.Options) (t : Table T)

def refuses (id : String) (v : T) : Bool :=
  limited opts && full opts (stats (size codec) t) (get t id).isSome (size codec v)

def put (id : String) (v : T) : Except Queue.Error (Table T) :=
  if id = "" then .error .idRequired
  else if refuses codec opts t id v then .error .full
  else .ok (insert t id v)

def delete (id : String) : Table T := t.remove id

end Nodra.PostgresQueue

namespace Nodra.Queue
open Lines JsonText JsonString PostgresQueue List Option OrderedMap

variable {T : Type}

section

inductive Request (T : Type) where
  | put (id : String) (v : T)
  | delete (id : String)
  | get (id : String)
  | list

inductive Answer (T : Type) where
  | done
  | failed (err : Error)
  | value (found : Option T)
  | values (all : List T)
deriving DecidableEq

variable (codec : Codec T) (opts : Options)

def answer (q : Queue T) : Request T → Queue T × Answer T
  | .put id v =>
    match q.put codec none (utf8 id) v with
    | .ok q' => (q', .done)
    | .error (err, q') => (q', .failed err)
  | .delete id =>
    match q.delete codec none (utf8 id) with
    | .ok q' => (q', .done)
    | .error (err, q') => (q', .failed err)
  | .get id => (q, .value (q.get (utf8 id)))
  | .list => (q, .values q.list)

def tableAnswer (t : Table T) : Request T → Table T × Answer T
  | .put id v =>
    match PostgresQueue.put codec opts t id v with
    | .ok t' => (t', .done)
    | .error err => (t, .failed err)
  | .delete id => (PostgresQueue.delete t id, .done)
  | .get id => (t, .value (PostgresQueue.get t id))
  | .list => (t, .values (PostgresQueue.list t))

structure Turn (T : Type) where
  queue : Queue T
  table : Table T
  request : Request T
  answer : Answer T
  tableAnswer : Answer T

def turn (q : Queue T) (t : Table T) (r : Request T) : Turn T :=
  ⟨q, t, r, (answer codec q r).2, (tableAnswer codec opts t r).2⟩

def turns (q : Queue T) (t : Table T) : List (Request T) → List (Turn T)
  | [] => []
  | r :: rest => turn codec opts q t r :: turns (answer codec q r).1 (tableAnswer codec opts t r).1 rest

/-- The answers are the same, and no queue is too full for a value that is put again and has not grown. -/
structure Turn.Agrees (turn : Turn T) : Prop where
  same : turn.answer = turn.tableAnswer
  again : ∀ id v old, turn.request = .put id v → turn.queue.get (utf8 id) = some old →
    size codec v ≤ size codec old → turn.answer ≠ .failed .full
  tableAgain : ∀ id v old, turn.request = .put id v → PostgresQueue.get turn.table id = some old →
    size codec v ≤ size codec old → turn.tableAnswer ≠ .failed .full

/-- A value that is put again fits in beside the old one, or not even without it. -/
def Turn.Clear (turn : Turn T) : Prop :=
  ∀ id v, turn.request = .put id v → utf8 id ∈ turn.queue.items → opts.maxBytes > 0 →
    turn.queue.bytes + size codec v ≤ opts.maxBytes ∨
      opts.maxBytes < turn.queue.bytes - turn.queue.bytesOf (utf8 id) + size codec v

end

section

def refuses (codec : Codec T) (q : Queue T) (id : Bytes) (v : T) : Bool :=
  q.overLimit q.settings (q.addItems id) (q.addBytes codec id v)

theorem refuses_eq (codec : Codec T) (q : Queue T) (id : Bytes) (v : T) :
    q.refuses codec id v = q.overLimit q.settings (q.addItems id) (q.addBytes codec id v) := rfl

structure Mirrors (codec : Codec T) (opts : Options) (q : Queue T) (t : Table T) : Prop where
  settings : q.settings = ⟨opts.maxItems, opts.maxBytes, .reject⟩
  inOrder : InOrder codec q.toContents
  entries : t.entries.map (fun entry => (utf8 entry.1, entry.2.data)) =
    q.items.entries.map fun entry => (entry.1, entry.2.data)
  items : opts.maxItems > 0 → (q.items.size : Int) ≤ opts.maxItems
  bytes : opts.maxBytes > 0 → q.bytes ≤ opts.maxBytes

variable {codec : Codec T} {opts : Options} {q : Queue T} {t : Table T} {id : String} {v : T}

theorem Mirrors.get_eq (h : Mirrors codec opts q t) (id : String) : q.get (utf8 id) = PostgresQueue.get t id := by
  have hfind := congrArg (List.find? fun entry => entry.1 = utf8 id) h.entries
  rw [find?_map, find?_map] at hfind
  have hkey : ((fun entry : Bytes × T => decide (entry.1 = utf8 id)) ∘ fun entry : String × Row T =>
      (utf8 entry.1, entry.2.data)) = fun entry => decide (entry.1 = id) := by
    funext entry
    simp [utf8_inj]
  rw [hkey] at hfind
  have hdata := congrArg (Option.map Prod.snd) hfind
  simpa [Contents.get, PostgresQueue.get, OrderedMap.get?, Function.comp_def] using hdata.symm

theorem Mirrors.list_eq (h : Mirrors codec opts q t) : q.list = PostgresQueue.list t := by
  rw [h.inOrder.list_eq, PostgresQueue.list, OrderedMap.values, List.map_map]
  have hdata := congrArg (List.map Prod.snd) h.entries
  simpa [Function.comp_def] using hdata.symm

theorem Mirrors.stats_eq (h : Mirrors codec opts q t) :
    PostgresQueue.stats (size codec) t = { items := q.items.size, bytes := q.bytes } := by
  have hsize : t.size = q.items.size := by
    have hlength := congrArg List.length h.entries
    simpa [OrderedMap.size] using hlength
  rw [PostgresQueue.stats, ← h.list_eq, ← h.inOrder.stored_eq, ← h.inOrder.bytes, hsize]

theorem Mirrors.congr (h : Mirrors codec opts q t) {q' : Queue T} (hcontents : q'.toContents = q.toContents)
    (hsettings : q'.settings = q.settings) : Mirrors codec opts q' t where
  settings := hsettings.trans h.settings
  inOrder := hcontents ▸ h.inOrder
  entries := hcontents ▸ h.entries
  items := hcontents ▸ h.items
  bytes := hcontents ▸ h.bytes

theorem filter_key_eq (t : Table T) (id : String) :
    (t.remove id).entries.map (fun entry => (utf8 entry.1, entry.2.data)) =
      (t.entries.map fun entry => (utf8 entry.1, entry.2.data)).filter fun entry => entry.1 ≠ utf8 id := by
  rw [List.filter_map]
  refine congrArg _ (filter_congr fun entry _ => ?_)
  simp [utf8_inj]

theorem Mirrors.entries_remove (h : Mirrors codec opts q t) (id : String) :
    (t.remove id).entries.map (fun entry => (utf8 entry.1, entry.2.data)) =
      (q.items.remove (utf8 id)).entries.map fun entry => (entry.1, entry.2.data) := by
  rw [filter_key_eq, h.entries, List.filter_map]
  rfl

theorem Mirrors.remove (h : Mirrors codec opts q t) (hseq : q.seq + 1 < 2 ^ 64) {q' : Queue T}
    (hcontents : q'.toContents = q.commit codec (.del (utf8 id) (nextSeq q.seq))) (hsettings : q'.settings = q.settings) :
    Mirrors codec opts q' (PostgresQueue.delete t id) := by
  have hitems : q'.items = q.items.remove (utf8 id) := congrArg Contents.items hcontents
  have hsub : q'.items.entries.Sublist q.items.entries := by
    rw [hitems]
    exact filter_sublist
  have hbytes : q'.bytes = q'.stored := by
    rw [hcontents]
    exact ((h.inOrder.accounted.seq _).drop _).bytes
  have hle : q'.bytes ≤ q.bytes := by
    rw [hbytes, h.inOrder.bytes]
    exact total_le_of_sublist hsub h.inOrder.accounted.nonneg
  refine ⟨hsettings.trans h.settings, h.inOrder.sublist hsub ?_ hbytes, ?_, fun hmax => ?_, fun hmax => ?_⟩
  · rw [hcontents]
    change q.seq ≤ nextSeq q.seq
    rw [nextSeq_eq hseq]
    omega
  · rw [hitems]
    exact h.entries_remove id
  · have := h.items hmax
    have := hsub.length_le
    simp only [OrderedMap.size] at *
    omega
  · exact hle.trans (h.bytes hmax)

theorem Mirrors.insert (h : Mirrors codec opts q t) (hid : utf8 id ≠ []) (hseq : q.seq + 1 < 2 ^ 64)
    (hroom : q.refuses codec (utf8 id) v = false) {q' : Queue T}
    (hcontents : q'.toContents = q.commit codec (.put (utf8 id) (nextSeq q.seq) v (q.bytesOf (utf8 id))))
    (hsettings : q'.settings = q.settings) : Mirrors codec opts q' (PostgresQueue.insert t id v) := by
  have hitems : q'.items = q.items.put (utf8 id) ⟨utf8 id, nextSeq q.seq, v, size codec v⟩ :=
    congrArg Contents.items hcontents
  have hsize : (q'.items.size : Int) = q.items.size + q.addItems (utf8 id) := by
    rw [hitems, size_put]
    rfl
  have hbytes : q'.bytes = q.bytes + q.addBytes codec (utf8 id) v := by
    rw [hcontents, Contents.addBytes]
    change q.bytes - q.bytesOf (utf8 id) + ((codec.marshal v).length : Int) = _
    omega
  simp only [refuses_eq, Contents.overLimit, h.settings, Bool.or_eq_false_iff, Bool.and_eq_false_iff,
    decide_eq_false_iff_not] at hroom
  refine ⟨hsettings.trans h.settings, ?_, ?_, fun hmax => ?_, fun hmax => ?_⟩
  · rw [hcontents]
    exact h.inOrder.put hid hseq
  · rw [hitems, PostgresQueue.insert, OrderedMap.put, OrderedMap.put]
    simp only [map_append, map_cons, map_nil]
    rw [h.entries_remove id]
  · omega
  · omega

end

section

variable {codec : Codec T} {opts : Options} {q : Queue T} {t : Table T} {id : String} {v : T}

theorem evictions_reject (h : q.settings.policy = .reject) (id : Bytes) (v : T) :
    q.evictions codec q.settings id v = [] := by
  rw [Contents.evictions, h]
  rfl

theorem stillFull_reject (h : q.settings.policy = .reject) (id : Bytes) (v : T) :
    q.stillFull codec q.settings id v = q.overLimit q.settings (q.addItems id) (q.addBytes codec id v) := by
  rw [Contents.stillFull, evictions_reject h, commitAll_nil]

theorem answer_put (codec : Codec T) (hpolicy : q.settings.policy = .reject) (hid : utf8 id ≠ []) (v : T) :
    ∃ q', q'.settings = q.settings ∧
      if q.refuses codec (utf8 id) v then
        answer codec q (.put id v) = (q', .failed .full) ∧ q'.toContents = q.toContents
      else
        answer codec q (.put id v) = (q', .done) ∧
          q'.toContents = q.commit codec (.put (utf8 id) (nextSeq q.seq) v (q.bytesOf (utf8 id))) := by
  obtain ⟨q', hcall, hcontents, hsettings⟩ := call_none codec q (.put (utf8 id) v)
  refine ⟨q', hsettings, ?_⟩
  simp only [refusal, changes, if_neg hid, stillFull_reject hpolicy, evictions_reject hpolicy, ← refuses_eq]
    at hcall hcontents
  change q.put codec none (utf8 id) v = _ at hcall
  rw [answer, hcall]
  split
  · next hfull =>
    rw [if_pos hfull] at hcontents
    exact ⟨rfl, hcontents⟩
  · next hroom =>
    rw [if_neg hroom] at hcontents
    exact ⟨rfl, hcontents⟩

theorem agrees_of_ne_put {r : Request T} (hr : ∀ id v, r ≠ .put id v)
    (hsame : (answer codec q r).2 = (tableAnswer codec opts t r).2) : (turn codec opts q t r).Agrees codec where
  same := hsame
  again := fun id v _ hput => absurd hput (hr id v)
  tableAgain := fun id v _ hput => absurd hput (hr id v)

theorem clear_put_iff (codec : Codec T) (opts : Options) (q : Queue T) (t : Table T) (id : String) (v : T) :
    (turn codec opts q t (.put id v)).Clear codec opts ↔
      (utf8 id ∈ q.items → opts.maxBytes > 0 → q.bytes + size codec v ≤ opts.maxBytes ∨
        opts.maxBytes < q.bytes - q.bytesOf (utf8 id) + size codec v) := by
  constructor
  · exact fun h => h id v rfl
  · rintro h _ _ ⟨⟩
    exact h

theorem utf8_eq_nil_iff : utf8 id = [] ↔ id = "" := @utf8_inj id ""

structure Sound (codec : Codec T) (opts : Options) (q : Queue T) (t : Table T) (r : Request T) : Prop where
  agrees_iff : (turn codec opts q t r).Agrees codec ↔ (turn codec opts q t r).Clear codec opts
  mirrors : (turn codec opts q t r).Clear codec opts →
    Mirrors codec opts (answer codec q r).1 (tableAnswer codec opts t r).1
  seq : (answer codec q r).1.seq ≤ q.seq + 1

theorem tableAnswer_put (codec : Codec T) (opts : Options) (t : Table T) (hid : id ≠ "") (v : T) :
    tableAnswer codec opts t (.put id v) =
      if PostgresQueue.refuses codec opts t id v then (t, .failed .full)
      else (PostgresQueue.insert t id v, .done) := by
  rw [tableAnswer, PostgresQueue.put, if_neg hid]
  cases PostgresQueue.refuses codec opts t id v <;> rfl

section

variable (h : Mirrors codec opts q t)
include h

theorem Mirrors.full_eq_iff (id : String) (v : T) :
    q.refuses codec (utf8 id) v = PostgresQueue.refuses codec opts t id v ↔
      (utf8 id ∈ q.items → opts.maxBytes > 0 → q.bytes + size codec v ≤ opts.maxBytes ∨
        opts.maxBytes < q.bytes - q.bytesOf (utf8 id) + size codec v) := by
  have hthere : (PostgresQueue.get t id).isSome = decide (utf8 id ∈ q.items) := by
    rw [← h.get_eq, Contents.get, isSome_map]
    simp [mem_iff_get?]
  have hbytes : q.addBytes codec (utf8 id) v = size codec v - q.bytesOf (utf8 id) := rfl
  rw [PostgresQueue.refuses, h.stats_eq, hthere, refuses_eq, Bool.eq_iff_iff]
  simp only [Contents.overLimit, h.settings, limited, full, hbytes, Contents.addItems, Bool.and_eq_true,
    Bool.or_eq_true, decide_eq_true_eq]
  by_cases hmem : utf8 id ∈ q.items
  · have hitems := h.items
    have hold : 0 ≤ q.bytesOf (utf8 id) := by
      obtain ⟨e, he⟩ := isSome_iff_exists.mp (mem_iff_get?.mp hmem)
      rw [Contents.bytesOf, he]
      exact h.inOrder.accounted.nonneg e (mem_values_of_get? he)
    simp only [hmem, if_true, true_imp_iff]
    omega
  · have hold : q.bytesOf (utf8 id) = 0 := bytesOf_fresh hmem
    simp only [hmem, if_false, hold, false_imp_iff, iff_true]
    omega

theorem Mirrors.overLimit_again {old : T} (hget : q.get (utf8 id) = some old)
    (hsize : size codec v ≤ size codec old) :
    q.refuses codec (utf8 id) v = false := by
  obtain ⟨e, he, rfl⟩ := map_eq_some_iff.mp hget
  have hmem : utf8 id ∈ q.items := mem_iff_get?.mpr (by rw [he]; rfl)
  have hbytes : q.bytesOf (utf8 id) = size codec e.data := by
    rw [Contents.bytesOf, he]
    obtain ⟨entry, hentry, hvalue⟩ := List.mem_map.mp (mem_values_of_get? he)
    rw [← hvalue]
    exact h.inOrder.sizes entry hentry
  have hadd : q.addBytes codec (utf8 id) v = size codec v - q.bytesOf (utf8 id) := rfl
  have hitems := h.items
  have hmax := h.bytes
  simp only [refuses_eq, Contents.overLimit, h.settings, Contents.addItems, if_pos hmem, hadd, hbytes, Bool.or_eq_false_iff,
    Bool.and_eq_false_iff, decide_eq_false_iff_not]
  omega

theorem Mirrors.delete (hseq : q.seq + 1 < 2 ^ 64) (id : String) :
    Sound codec opts q t (.delete id) := by
  obtain ⟨q', hcall, hcontents, hsettings⟩ := call_none codec q (.delete (utf8 id))
  change q.delete codec none (utf8 id) = .ok q' at hcall
  have hanswer : answer codec q (.delete id) = (q', .done) := by
    rw [answer, hcall]
  have hmirrors : Mirrors codec opts q' (PostgresQueue.delete t id) := by
    by_cases hmem : utf8 id ∈ q.items
    · rw [changes, if_pos hmem] at hcontents
      exact h.remove hseq hcontents hsettings
    · have hgone : id ∉ t := by
        have hget := h.get_eq id
        rw [Contents.get, get?_eq_none_iff.mpr hmem] at hget
        exact get?_eq_none_iff.mp (map_eq_none_iff.mp hget.symm)
      rw [changes, if_neg hmem] at hcontents
      rw [PostgresQueue.delete, remove_of_not_mem hgone]
      exact h.congr hcontents hsettings
  refine ⟨⟨by rintro _ _ _ ⟨⟩, fun _ => agrees_of_ne_put (by simp) (by rw [hanswer]; rfl)⟩, fun _ => ?_, ?_⟩
  · rw [hanswer]
    exact hmirrors
  · rw [hanswer, hcontents, changes]
    split
    · change nextSeq q.seq ≤ q.seq + 1
      rw [nextSeq_eq hseq]
    · exact Nat.le_succ _

theorem Mirrors.put_nameless (v : T) : Sound codec opts q t (.put "" v) := by
  have habsent : utf8 "" ∉ q.items := by
    intro hmem
    obtain ⟨entry, hentry, hkey⟩ := List.mem_map.mp (mem_iff_keys.mp hmem)
    exact h.inOrder.named entry hentry hkey
  refine ⟨⟨fun _ => (clear_put_iff ..).mpr fun hmem => absurd hmem habsent, fun _ => ⟨rfl, nofun, nofun⟩⟩, ?_, ?_⟩
  · exact fun _ => h
  · exact Nat.le_succ _

theorem Mirrors.agrees_put_iff (hid : id ≠ "")
    (hanswer : (answer codec q (.put id v)).2 = if q.refuses codec (utf8 id) v then .failed .full else .done) :
    (turn codec opts q t (.put id v)).Agrees codec ↔
      q.refuses codec (utf8 id) v = PostgresQueue.refuses codec opts t id v := by
  have htable : (tableAnswer codec opts t (.put id v)).2 =
      if PostgresQueue.refuses codec opts t id v then .failed .full else .done := by
    rw [tableAnswer_put codec opts t hid]
    split <;> rfl
  constructor
  · intro hagrees
    have hsame : (answer codec q (.put id v)).2 = (tableAnswer codec opts t (.put id v)).2 := hagrees.same
    rw [hanswer, htable] at hsame
    revert hsame
    cases q.refuses codec (utf8 id) v <;> cases PostgresQueue.refuses codec opts t id v <;> simp
  · intro heq
    have hsame : (answer codec q (.put id v)).2 = (tableAnswer codec opts t (.put id v)).2 := by
      rw [hanswer, htable, heq]
    have hagain : ∀ old, q.get (utf8 id) = some old → size codec v ≤ size codec old →
        (answer codec q (.put id v)).2 ≠ .failed .full := by
      intro old hget hsize
      rw [hanswer, h.overLimit_again hget hsize]
      simp
    refine ⟨hsame, ?_, ?_⟩
    · rintro _ _ old ⟨⟩
      exact hagain old
    · rintro _ _ old ⟨⟩ hget
      change size codec v ≤ _ → (tableAnswer codec opts t (.put id v)).2 ≠ _
      rw [← hsame]
      exact hagain old ((h.get_eq id).trans hget)

theorem Mirrors.put (hseq : q.seq + 1 < 2 ^ 64) (id : String) (v : T) :
    Sound codec opts q t (.put id v) := by
  by_cases hid : id = ""
  · rw [hid]
    exact h.put_nameless v
  have hkey : utf8 id ≠ [] := mt utf8_eq_nil_iff.mp hid
  obtain ⟨q', hsettings, hanswer⟩ := answer_put codec (by rw [h.settings]) hkey v
  have htable := tableAnswer_put codec opts t hid v
  have hclear := (h.full_eq_iff id v).trans (clear_put_iff codec opts q t id v).symm
  cases hfile : q.refuses codec (utf8 id) v with
  | true =>
    rw [if_pos hfile] at hanswer
    refine ⟨(h.agrees_put_iff hid ?_).trans hclear, fun hc => ?_, ?_⟩
    · rw [hanswer.1, hfile]
      rfl
    · rw [hanswer.1, htable, if_pos ((hclear.mpr hc).symm.trans hfile)]
      exact h.congr hanswer.2 hsettings
    · rw [hanswer.1, hanswer.2]
      exact Nat.le_succ _
  | false =>
    rw [hfile, if_neg Bool.false_ne_true] at hanswer
    refine ⟨(h.agrees_put_iff hid ?_).trans hclear, fun hc => ?_, ?_⟩
    · rw [hanswer.1, hfile]
      rfl
    · rw [hanswer.1, htable, if_neg (by rw [← hclear.mpr hc, hfile]; exact Bool.false_ne_true)]
      exact h.insert hkey hseq hfile hanswer.2 hsettings
    · rw [hanswer.1, hanswer.2]
      change nextSeq q.seq ≤ q.seq + 1
      rw [nextSeq_eq hseq]

theorem Mirrors.sound (hseq : q.seq + 1 < 2 ^ 64) (r : Request T) :
    Sound codec opts q t r := by
  cases r with
  | put id v => exact h.put hseq id v
  | delete id => exact h.delete hseq id
  | get id =>
    have hsame := congrArg Answer.value (h.get_eq id)
    exact ⟨⟨fun _ => nofun, fun _ => agrees_of_ne_put nofun hsame⟩, fun _ => h, Nat.le_succ _⟩
  | list =>
    have hsame := congrArg Answer.values h.list_eq
    exact ⟨⟨fun _ => nofun, fun _ => agrees_of_ne_put nofun hsame⟩, fun _ => h, Nat.le_succ _⟩

end

theorem Mirrors.agree_iff (h : Mirrors codec opts q t) (requests : List (Request T))
    (hseq : q.seq + requests.length < 2 ^ 64) :
    (∀ turn ∈ turns codec opts q t requests, turn.Agrees codec) ↔
      ∀ turn ∈ turns codec opts q t requests, turn.Clear codec opts := by
  induction requests generalizing q t with
  | nil => simp [turns]
  | cons r rest ih =>
    rw [length_cons] at hseq
    have hsound := h.sound (by omega) r
    have hnext := hsound.seq
    rw [turns, forall_mem_cons, forall_mem_cons, hsound.agrees_iff]
    exact and_congr_right fun hclear => ih (hsound.mirrors hclear) (by omega)

end

section

variable {codec : Codec T} {opts : Options} {q : Queue T}

theorem mirrors_empty (hpolicy : Policy.parse opts.policy = some .reject) {dir : String}
    (hopen : openWithOptions codec dir opts none = .ok q) : Mirrors codec opts q .empty := by
  unfold openWithOptions at hopen
  split at hopen
  · cases hopen
  · rw [hpolicy] at hopen
    cases hopen
    exact ⟨rfl, ⟨.nil, nofun, nofun, nofun, rfl⟩, rfl, fun h => h.le, fun h => h.le⟩

/-- The two queues of a client agree in every answer exactly if no value is put again near the limit:
the table does not count off what it replaces. -/
theorem queues_agree_iff (hpolicy : Policy.parse opts.policy = some .reject) (dir : String)
    (hopen : openWithOptions codec dir opts none = .ok q) (requests : List (Request T))
    (hseq : requests.length < 2 ^ 64) :
    (∀ turn ∈ turns codec opts q .empty requests, turn.Agrees codec) ↔
      ∀ turn ∈ turns codec opts q .empty requests, turn.Clear codec opts := by
  have hmirrors := mirrors_empty hpolicy hopen
  have hzero : q.seq = 0 := by
    unfold openWithOptions at hopen
    split at hopen
    · cases hopen
    · rw [hpolicy] at hopen
      cases hopen
      rfl
  exact hmirrors.agree_iff requests (by omega)

def smallOptions : Options := { maxBytes := 4 }

def smallQueue : Queue Bool := { settings := ⟨0, 4, .reject⟩ }

theorem queues_agree_small :
    openWithOptions boolCodec "queue" smallOptions none = .ok smallQueue ∧
      ∀ turn ∈ turns boolCodec smallOptions smallQueue .empty [.put "a" true, .get "a", .list],
        turn.Agrees boolCodec := by
  refine ⟨rfl, (queues_agree_iff rfl "queue" rfl _ (by decide)).mpr fun turn hturn => ?_⟩
  simp only [turns, mem_cons, not_mem_nil, or_false] at hturn
  rcases hturn with rfl | rfl | rfl
  · exact (clear_put_iff ..).mpr fun hmem => absurd hmem (not_mem_empty _)
  · exact nofun
  · exact nofun

/-- The value that is put again is the same, and the table is too full for it. -/
theorem put_again_differs :
    Policy.parse smallOptions.policy = some .reject ∧
      openWithOptions boolCodec "queue" smallOptions none = .ok smallQueue ∧
      (turns boolCodec smallOptions smallQueue .empty [.put "a" true, .put "a" true]).map
        (fun turn => (turn.answer, turn.tableAnswer)) = [(.done, .done), (.done, .failed .full)] ∧
      ¬ ∀ turn ∈ turns boolCodec smallOptions smallQueue .empty [.put "a" true, .put "a" true],
        turn.Agrees boolCodec := by
  have hanswers : (turns boolCodec smallOptions smallQueue .empty [.put "a" true, .put "a" true]).map
      (fun turn => (turn.answer, turn.tableAnswer)) = [(.done, .done), (.done, .failed .full)] := by decide
  refine ⟨rfl, rfl, hanswers, fun h => ?_⟩
  have hsame : ∀ pair ∈ (turns boolCodec smallOptions smallQueue .empty [.put "a" true, .put "a" true]).map
      (fun turn => (turn.answer, turn.tableAnswer)), pair.1 = pair.2 := by
    intro pair hpair
    obtain ⟨turn, hturn, rfl⟩ := List.mem_map.mp hpair
    exact (h turn hturn).same
  rw [hanswers] at hsame
  exact absurd (hsame (.done, .failed .full) (by simp)) nofun

end

end Nodra.Queue
