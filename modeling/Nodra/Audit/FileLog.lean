import Nodra.Lib.OrderedMap
import Nodra.Lib.Paging
import Nodra.Model.Types

/-! The audit log in files, one for each day, and the pages in which a query hands it out. -/
namespace Nodra.Audit
open Model Lines JsonString JsonText JsonNumber List Option OrderedMap

section

def dayNanos : Int := 86400 * 10 ^ 9

def zeroTime : Time := -62135596800 * 10 ^ 9

structure Entry where
  id : String := ""
  time : Time := zeroTime
  actor : String := ""
  actorType : String := ""
  action : String := ""
  target : String := ""
  siteID : String := ""
  result : String := ""
  message : String := ""
  detail : Option Any := none
  deriving DecidableEq

structure EntryJson where
  marshal : Entry → Option Bytes
  unmarshal : Bytes → Option Entry
  roundTrip : ∀ e line, marshal e = some line → unmarshal line = some e
  clean : ∀ e line, marshal e = some line → newline ∉ line ∧ carriageReturn ∉ line

structure FileLog where
  files : OrderedMap Int Bytes := .empty

def dayOf (t : Time) : Int := t / dayNanos

variable (json : EntryJson)

def FileLog.content (log : FileLog) (day : Int) : Bytes := (log.files.get? day).getD []

/-- The file of the day is there also when the entry cannot be written. -/
def FileLog.write (log : FileLog) (e : Entry) : FileLog × Option (Entry × Bytes) :=
  match json.marshal e with
  | none => (⟨log.files.put (dayOf e.time) (log.content (dayOf e.time))⟩, none)
  | some line =>
    (⟨log.files.put (dayOf e.time) (log.content (dayOf e.time) ++ (line ++ [newline]))⟩, some (e, line))

def FileLog.append (log : FileLog) (e : Entry) (newID : String) (now : Time) : FileLog × Option (Entry × Bytes) :=
  log.write json { e with
    id := if e.id = "" then newID else e.id
    time := if e.time = zeroTime then now else e.time }

/-- The log after some calls of `append`, with the entries they have written and their lines, each of
which meets the condition after those before. -/
inductive Built (ok : List (Entry × Bytes) → Entry × Bytes → Prop) : FileLog → List (Entry × Bytes) → Prop where
  | empty : Built ok {} []
  | append {log : FileLog} {written : List (Entry × Bytes)} (e : Entry) (newID : String) (now : Time) :
      Built ok log written → (∀ w ∈ (log.append json e newID now).2, ok written w) →
      Built ok (log.append json e newID now).1 (written ++ (log.append json e newID now).2.toList)

end

section

structure Filter where
  since : Time := zeroTime
  untilTime : Time := zeroTime
  siteID : String := ""
  siteIDs : List String := []
  action : String := ""
  actor : String := ""
  limit : Int := 0
  cursor : Bytes := []

def Filter.accepts (f : Filter) (e : Entry) : Bool :=
  (f.since = zeroTime || f.since ≤ e.time) && (f.untilTime = zeroTime || e.time ≤ f.untilTime) &&
    (f.siteID = "" || e.siteID = f.siteID) && (f.siteIDs.isEmpty || f.siteIDs.contains e.siteID) &&
    (f.action = "" || e.action = f.action) && (f.actor = "" || e.actor = f.actor)

def FileLog.dayFiles (log : FileLog) (since untilTime : Time) : List Int :=
  (log.files.keys.filter fun day =>
    !(since ≠ zeroTime && day * dayNanos < dayOf since * dayNanos) &&
      !(untilTime ≠ zeroTime && untilTime < day * dayNanos)).mergeSort fun a b => b ≤ a

def Entry.Precedes (a b : Entry) : Prop := b.time < a.time ∨ a.time = b.time ∧ b.id < a.id

instance (a b : Entry) : Decidable (a.Precedes b) := inferInstanceAs (Decidable (_ ∨ _))

def unixNano (t : Time) : Int := Int.bmod t (2 ^ 64)

def encodeCursor (t : Time) (id : String) : Bytes :=
  (if unixNano t < 0 then [0x2d] else []) ++ (decimal (unixNano t).natAbs ++ 0x7c :: utf8 id)

def isSpace (c : Char) : Bool :=
  c.toNat ∈ [9, 10, 11, 12, 13, 32, 0x85, 0xa0, 0x1680, 0x2028, 0x2029, 0x202f, 0x205f, 0x3000] ||
    (0x2000 ≤ c.toNat && c.toNat ≤ 0x200a)

def scanDigits (sign : Int) (c : Bytes) : Option (Int × Bytes) :=
  (parseUint 64 (c.takeWhile isDigit)).bind fun n =>
    if unixNano (sign * n) = sign * n then some (sign * n, c.dropWhile isDigit) else none

def scanInt (c : Bytes) : Option (Int × Bytes) :=
  if c.head? = some 0x2d then scanDigits (-1) c.tail else scanDigits 1 c

def scanWord (c : Bytes) : Option String := do
  let text ← utf8? c
  let word := (text.toList.dropWhile isSpace).takeWhile (!isSpace ·)
  if word = [] then none else some (String.ofList word)

def decodeCursor (c : Bytes) : Option (Time × String) := do
  let (ns, rest) ← scanInt c
  if rest.head? = some 0x7c then (scanWord rest.tail).map (ns, ·) else none

def scanLimit : Nat := 4 * 2 ^ 20

def pageLimit (limit : Int) : Nat := if limit ≤ 0 ∨ 1000 < limit then 250 else limit.toNat

variable (json : EntryJson)

def readDay (f : Filter) (file : Bytes) : List Entry :=
  ((scan scanLimit file).1.filterMap json.unmarshal).filter f.accepts

def FileLog.matching (log : FileLog) (f : Filter) : List Entry :=
  ((log.dayFiles f.since f.untilTime).flatMap fun day =>
    readDay json f (log.content day)).mergeSort fun a b => !decide (b.Precedes a)

def FileLog.remaining (log : FileLog) (f : Filter) : List Entry :=
  match decodeCursor f.cursor with
  | some (ct, cid) =>
    (log.matching json f).dropWhile fun e => !decide (Entry.Precedes { id := cid, time := ct } e)
  | none => log.matching json f

def FileLog.query (log : FileLog) (f : Filter) : List Entry × Bytes :=
  let all := log.remaining json f
  let page := all.take (pageLimit f.limit)
  if pageLimit f.limit < all.length then (page, (page.getLast?.map fun e => encodeCursor e.time e.id).getD [])
  else (all, [])

def FileLog.page (log : FileLog) (f : Filter) (cursor : Bytes) : List Entry × Option Bytes :=
  let (entries, next) := log.query json { f with cursor }
  (entries, if next = [] then none else some next)

end

theorem head_decimal (n : Nat) : ∃ c rest, decimal n = c :: rest ∧ c ≠ 0x2d := by
  cases hdecimal : decimal n with
  | nil => exact absurd hdecimal (decimal_ne_nil n)
  | cons c rest =>
    refine ⟨c, rest, rfl, ?_⟩
    rintro rfl
    have hdigit := isDigit_of_mem_decimal n 0x2d (by simp [hdecimal])
    revert hdigit
    decide

theorem scanDigits_decimal {sign : Int} {n : Nat} (hsign : unixNano (sign * n) = sign * n) (hfits : n < 2 ^ 64)
    {rest : Bytes} (hrest : ∀ c ∈ rest.head?, isDigit c = false) :
    scanDigits sign (decimal n ++ rest) = some (sign * n, rest) := by
  have hdigits : ∀ c ∈ decimal n, isDigit c = true := isDigit_of_mem_decimal n
  have htake : (decimal n ++ rest).takeWhile isDigit = decimal n := by
    rw [takeWhile_append_of_pos hdigits]
    cases rest with
    | nil => simp
    | cons c rest => simp [hrest c rfl]
  have hdrop : (decimal n ++ rest).dropWhile isDigit = rest := by
    rw [dropWhile_append_of_pos hdigits]
    cases rest with
    | nil => rfl
    | cons c rest => simp [hrest c rfl]
  rw [scanDigits, htake, parseUint_decimal hfits, bind_some, if_pos hsign, hdrop]

theorem scanInt_decimal {t : Int} (ht : unixNano t = t) (hfits : t.natAbs < 2 ^ 64) {rest : Bytes}
    (hrest : ∀ c ∈ rest.head?, isDigit c = false) :
    scanInt ((if t < 0 then [0x2d] else []) ++ (decimal t.natAbs ++ rest)) = some (t, rest) := by
  by_cases hneg : t < 0
  · have habs : -1 * (t.natAbs : Int) = t := by omega
    rw [if_pos hneg, singleton_append, scanInt, head?_cons, if_pos rfl, tail_cons,
      scanDigits_decimal (by rw [habs, ht]) hfits hrest, habs]
  · obtain ⟨c, digits, hdecimal, hc⟩ := head_decimal t.natAbs
    have habs : 1 * (t.natAbs : Int) = t := by omega
    have hhead : (decimal t.natAbs ++ rest).head? ≠ some 0x2d := by simp [hdecimal, hc]
    rw [if_neg hneg, nil_append, scanInt, if_neg hhead, scanDigits_decimal (by rw [habs, ht]) hfits hrest, habs]

theorem scanWord_utf8 {id : String} (hne : id ≠ "") (hword : ∀ c ∈ id.toList, isSpace c = false) :
    scanWord (utf8 id) = some id := by
  have hfirst : id.toList.dropWhile isSpace = id.toList := by
    cases hlist : id.toList with
    | nil => rfl
    | cons c rest => simp [hword c (by simp [hlist])]
  have hid : (id.toList.dropWhile isSpace).takeWhile (!isSpace ·) = id.toList := by
    rw [hfirst, takeWhile_eq_self_iff]
    simpa using hword
  simp only [scanWord, utf8?_utf8, bind_eq_bind, bind_some, hid]
  rw [if_neg (by simpa using hne), String.ofList_toList]

theorem decodeCursor_encodeCursor {t : Int} {id : String} (ht : -2 ^ 63 ≤ t ∧ t < 2 ^ 63) (hne : id ≠ "")
    (hword : ∀ c ∈ id.toList, isSpace c = false) : decodeCursor (encodeCursor t id) = some (t, id) := by
  have hnano : unixNano t = t := Int.bmod_eq_of_le (by omega) (by omega)
  have hbar : ∀ c ∈ (0x7c :: utf8 id).head?, isDigit c = false := by
    rintro _ ⟨⟩
    decide
  rw [decodeCursor, encodeCursor, hnano, scanInt_decimal hnano (by omega) hbar]
  simp [scanWord_utf8 hne hword]

section

variable {json : EntryJson} {log : FileLog} {written : List (Entry × Bytes)} {f : Filter}

structure Filed (json : EntryJson) (log : FileLog) (written : List (Entry × Bytes)) : Prop where
  content : ∀ day, log.content day =
    join ((written.filter fun w => dayOf w.1.time = day).map Prod.snd)
  marshaled : ∀ w ∈ written, json.marshal w.1 = some w.2

theorem content_put (log : FileLog) (day day' : Int) (file : Bytes) :
    FileLog.content ⟨log.files.put day file⟩ day' = if day' = day then file else log.content day' := by
  rw [FileLog.content, get?_put]
  split
  · rfl
  · rfl

theorem Filed.write (h : Filed json log written) (e : Entry) :
    Filed json (log.write json e).1 (written ++ (log.write json e).2.toList) := by
  unfold FileLog.write
  cases hline : json.marshal e with
  | none =>
    refine ⟨fun day => ?_, by simpa using h.marshaled⟩
    rw [content_put, toList_none, append_nil, ← h.content]
    split
    · next heq => rw [heq]
    · rfl
  | some line =>
    refine ⟨fun day => ?_, fun w hw => ?_⟩
    · rw [content_put, toList_some, filter_append, map_append, join_append, ← h.content]
      split
      · next heq => simp [heq]
      · next hne => simp [Ne.symm hne]
    · rcases mem_append.mp hw with hw | hw
      · exact h.marshaled w hw
      · rw [mem_singleton.mp hw]
        exact hline

theorem filed_of_built {ok : List (Entry × Bytes) → Entry × Bytes → Prop} (h : Built json ok log written) :
    Filed json log written := by
  induction h with
  | empty => exact ⟨fun _ => rfl, nofun⟩
  | append e newID now _ _ ih => exact ih.write _

/-- What the entries of a log must be like for a query to hand them out: each line is shorter than
the buffer of the scanner, the times and ids come back from a cursor, and no two are the same. -/
structure Proper (written : List (Entry × Bytes)) : Prop where
  short : ∀ w ∈ written, w.2.length < scanLimit
  time : ∀ w ∈ written, -2 ^ 63 ≤ w.1.time ∧ w.1.time < 2 ^ 63
  word : ∀ w ∈ written, w.1.id ≠ "" ∧ ∀ c ∈ w.1.id.toList, isSpace c = false
  distinct : (written.map fun w => (w.1.time, w.1.id)).Nodup

theorem mem_dayFiles {e : Entry} (hday : dayOf e.time ∈ log.files.keys) (haccepts : f.accepts e) :
    dayOf e.time ∈ log.dayFiles f.since f.untilTime := by
  simp only [Filter.accepts, Bool.and_eq_true, Bool.or_eq_true, decide_eq_true_eq] at haccepts
  obtain ⟨⟨⟨⟨⟨hsince, huntil⟩, -⟩, -⟩, -⟩, -⟩ := haccepts
  have hpos : 0 < dayNanos := by decide
  have hstart : dayOf e.time * dayNanos ≤ e.time := Int.ediv_mul_le e.time (by decide)
  rw [FileLog.dayFiles, mem_mergeSort, mem_filter]
  refine ⟨hday, ?_⟩
  simp only [Bool.and_eq_true, Bool.not_eq_true', Bool.and_eq_false_iff, decide_eq_false_iff_not, not_not, not_lt]
  constructor
  · exact hsince.imp_right fun hle => Int.mul_le_mul_of_nonneg_right (Int.ediv_le_ediv hpos hle) (le_of_lt hpos)
  · exact huntil.imp_right hstart.trans

theorem mem_keys_of_content {day : Int} (h : log.content day ≠ []) : day ∈ log.files.keys := by
  rw [← mem_iff_keys, mem_iff_get?]
  unfold FileLog.content at h
  cases hget : log.files.get? day with
  | none => simp [hget] at h
  | some file => rfl

theorem Entry.Precedes.asymm {a b : Entry} (h : a.Precedes b) : ¬ b.Precedes a := by
  rintro (hlt | ⟨heq, hid⟩)
  · rcases h with hlt' | ⟨heq, -⟩
    · exact lt_asymm hlt hlt'
    · exact hlt.ne heq
  · rcases h with hlt | ⟨-, hid'⟩
    · exact hlt.ne heq
    · exact lt_asymm hid hid'

theorem Entry.not_precedes_trans {a b c : Entry} (h : ¬ b.Precedes a) (h' : ¬ c.Precedes b) : ¬ c.Precedes a := by
  unfold Entry.Precedes at *
  rw [not_or, not_lt, not_and, not_lt] at *
  refine ⟨h'.1.trans h.1, fun heq => ?_⟩
  have hfirst : b.time = a.time := le_antisymm h.1 (heq ▸ h'.1)
  exact (h'.2 (heq.trans hfirst.symm)).trans (h.2 hfirst)

theorem Entry.precedes_or {a b : Entry} (h : ¬ b.Precedes a) (hne : (a.time, a.id) ≠ (b.time, b.id)) :
    a.Precedes b := by
  unfold Entry.Precedes at *
  rw [not_or, not_lt, not_and, not_lt] at h
  rcases lt_or_eq_of_le h.1 with hlt | heq
  · exact .inl hlt
  · refine .inr ⟨heq.symm, lt_of_le_of_ne (h.2 heq) fun hid => hne ?_⟩
    rw [heq, hid]

/-- What is left of the entries at a cursor: all at the empty one, and those behind its entry at
another. -/
def Left (json : EntryJson) (log : FileLog) (f : Filter) (cursor : Bytes) (rest : List Entry) : Prop :=
  cursor = [] ∧ rest = log.matching json f ∨ ∃ front x, log.matching json f = front ++ x :: rest ∧
    cursor = encodeCursor x.time x.id

theorem Left.drop {cursor : Bytes} {rest front : List Entry} {x : Entry} {n : Nat}
    (h : Left json log f cursor rest) (hpage : rest.take n = front ++ [x]) :
    Left json log f (encodeCursor x.time x.id) (rest.drop n) := by
  have hrest : rest = front ++ x :: rest.drop n := by
    rw [append_cons, ← hpage, take_append_drop]
  rcases h with ⟨-, hall⟩ | ⟨before, y, hall, -⟩
  · exact .inr ⟨front, x, hall ▸ hrest, rfl⟩
  · refine .inr ⟨before ++ y :: front, x, ?_, rfl⟩
    rw [hall, append_assoc, cons_append, ← hrest]

variable (hfiled : Filed json log written) (hproper : Proper written)
include hfiled hproper

theorem readDay_of_filed (day : Int) : readDay json f (log.content day) =
      ((written.filter fun w => dayOf w.1.time = day).map Prod.fst).filter f.accepts := by
  have hlines : ∀ line ∈ (written.filter fun w => dayOf w.1.time = day).map Prod.snd, IsLine scanLimit line := by
    intro line hline
    obtain ⟨w, hw, rfl⟩ := List.mem_map.mp hline
    have hmem := (mem_filter.mp hw).1
    have hclean := json.clean w.1 w.2 (hfiled.marshaled w hmem)
    exact ⟨hclean.1, hclean.2, hproper.short w hmem⟩
  have hread : ((written.filter fun w => dayOf w.1.time = day).map Prod.snd).filterMap json.unmarshal =
      (written.filter fun w => dayOf w.1.time = day).map Prod.fst := by
    rw [filterMap_map, ← filterMap_eq_map]
    refine filterMap_congr fun w hw => ?_
    exact json.roundTrip w.1 w.2 (hfiled.marshaled w (mem_filter.mp hw).1)
  rw [readDay, hfiled.content, scan_join scanLimit _ hlines, hread]

theorem mem_matching_iff {e : Entry} :
    e ∈ log.matching json f ↔ e ∈ written.map Prod.fst ∧ f.accepts e := by
  rw [FileLog.matching, mem_mergeSort, mem_flatMap]
  simp only [readDay_of_filed hfiled hproper, mem_filter, List.mem_map]
  constructor
  · rintro ⟨day, -, ⟨w, ⟨hw, -⟩, rfl⟩, haccepts⟩
    exact ⟨⟨w, hw, rfl⟩, haccepts⟩
  · rintro ⟨⟨w, hw, rfl⟩, haccepts⟩
    refine ⟨dayOf w.1.time, mem_dayFiles (mem_keys_of_content ?_) haccepts, ⟨w, ⟨hw, by simp⟩, rfl⟩, haccepts⟩
    rw [hfiled.content]
    refine ne_nil_of_mem (a := newline) (mem_flatMap.mpr ⟨w.2, ?_, by simp⟩)
    exact List.mem_map.mpr ⟨w, mem_filter.mpr ⟨hw, by simp⟩, rfl⟩

theorem nodup_matching : (log.matching json f).Nodup := by
  have hwritten : (written.map Prod.fst).Nodup := by
    refine List.Nodup.of_map (fun e : Entry => (e.time, e.id)) ?_
    rw [List.map_map]
    exact hproper.distinct
  have hdays : (log.dayFiles f.since f.untilTime).Nodup :=
    (mergeSort_perm _ _).nodup_iff.mpr (log.files.nodup.filter _)
  refine (mergeSort_perm _ _).nodup_iff.mpr (nodup_flatMap.mpr ⟨fun day _ => ?_, ?_⟩)
  · rw [readDay_of_filed hfiled hproper]
    exact ((filter_sublist.map Prod.fst).nodup hwritten).filter _
  · refine hdays.imp fun hne e he he' => ?_
    simp only [readDay_of_filed hfiled hproper, mem_filter, List.mem_map] at he he'
    obtain ⟨⟨w, ⟨-, hday⟩, rfl⟩, -⟩ := he
    obtain ⟨⟨w', ⟨-, hday'⟩, hsame⟩, -⟩ := he'
    rw [hsame] at hday'
    exact hne ((of_decide_eq_true hday).symm.trans (of_decide_eq_true hday'))

theorem pairwise_matching : (log.matching json f).Pairwise Entry.Precedes := by
  have htrans : ∀ a b c : Entry, !decide (b.Precedes a) → !decide (c.Precedes b) → !decide (c.Precedes a) := by
    intro a b c
    simp only [Bool.not_eq_true', decide_eq_false_iff_not]
    exact Entry.not_precedes_trans
  have htotal : ∀ a b : Entry, (!decide (b.Precedes a) || !decide (a.Precedes b)) = true := by
    intro a b
    by_cases h : a.Precedes b
    · simp [h.asymm]
    · simp [h]
  have hsorted := pairwise_mergeSort htrans htotal
    ((log.dayFiles f.since f.untilTime).flatMap fun day => readDay json f (log.content day))
  refine (hsorted.and (nodup_matching hfiled hproper)).imp_of_mem fun {a b} ha hb h => ?_
  refine Entry.precedes_or (by simpa using h.1) fun hkey => h.2 ?_
  obtain ⟨w, hw, rfl⟩ := List.mem_map.mp ((mem_matching_iff hfiled hproper).mp ha).1
  obtain ⟨w', hw', rfl⟩ := List.mem_map.mp ((mem_matching_iff hfiled hproper).mp hb).1
  rw [inj_on_of_nodup_map hproper.distinct hw hw' hkey]

theorem remaining_of_left {cursor : Bytes}
    {rest : List Entry} (h : Left json log f cursor rest) : log.remaining json { f with cursor } = rest := by
  rcases h with ⟨rfl, rfl⟩ | ⟨front, x, hall, rfl⟩
  · rfl
  · have hmem : x ∈ log.matching json f := by simp [hall]
    obtain ⟨w, hw, rfl⟩ := List.mem_map.mp ((mem_matching_iff hfiled hproper).mp hmem).1
    have hdecode := decodeCursor_encodeCursor (hproper.time w hw) (hproper.word w hw).1 (hproper.word w hw).2
    have hstrict : (log.matching json f).Pairwise Entry.Precedes := pairwise_matching hfiled hproper
    rw [hall] at hstrict
    simp only [FileLog.remaining, hdecode]
    change (log.matching json f).dropWhile (fun e => !decide (w.1.Precedes e)) = rest
    rw [hall]
    exact Paging.dropWhile_of_pairwise (fun _ _ => Entry.Precedes.asymm) hstrict

theorem exists_pages (f : Filter) :
    ∃ pages, Paging.Follows (log.page json f) [] pages ∧ pages.flatten = log.matching json f := by
  have hpos : 0 < pageLimit f.limit := by
    unfold pageLimit
    split <;> omega
  have hlast {cursor : Bytes} {rest : List Entry} (h : Left json log f cursor rest)
      (hle : rest.length ≤ pageLimit f.limit) : log.page json f cursor = (rest, none) := by
    simp only [FileLog.page, FileLog.query, remaining_of_left hfiled hproper h, if_neg (Nat.not_lt.mpr hle), if_true]
  have hmore {cursor : Bytes} {rest : List Entry} (h : Left json log f cursor rest)
      (hlt : pageLimit f.limit < rest.length) : ∃ front x, rest.take (pageLimit f.limit) = front ++ [x] ∧
        log.page json f cursor = (rest.take (pageLimit f.limit), some (encodeCursor x.time x.id)) := by
    have hne : rest.take (pageLimit f.limit) ≠ [] := by
      rw [ne_eq, take_eq_nil_iff, not_or]
      exact ⟨hpos.ne', ne_nil_of_length_pos (Nat.zero_lt_of_lt hlt)⟩
    obtain ⟨front, x, hpage⟩ := (eq_nil_or_concat' _).resolve_left hne
    refine ⟨front, x, hpage, ?_⟩
    simp only [FileLog.page, FileLog.query, remaining_of_left hfiled hproper h, if_pos hlt]
    simp [hpage, encodeCursor]
  refine Paging.exists_follows (Left json log f) hpos ?_ ?_ ?_ (.inl ⟨rfl, rfl⟩)
  · intro cursor rest h
    by_cases hlen : rest.length ≤ pageLimit f.limit
    · rw [hlast h hlen, take_of_length_le hlen]
    · obtain ⟨_, _, -, hpage⟩ := hmore h (Nat.lt_of_not_le hlen)
      rw [hpage]
  · intro cursor rest h hlen
    rw [hlast h hlen]
  · intro cursor rest h hlen
    obtain ⟨front, x, htake, hpage⟩ := hmore h hlen
    exact ⟨_, by rw [hpage], h.drop htake⟩

end

section

variable {json : EntryJson} {log : FileLog} {written : List (Entry × Bytes)}

/-- Whatever the filter and its limit, following the cursors comes to an end, and hands out the
entries that were written and are accepted, each once, from the last on. -/
theorem pages_exact (h : Built json (fun _ _ => True) log written) (hproper : Proper written) (f : Filter) :
    ∃ pages, Paging.Follows (log.page json f) [] pages ∧ pages.flatten.Pairwise Entry.Precedes ∧
      ∀ e, e ∈ pages.flatten ↔ e ∈ written.map Prod.fst ∧ f.accepts e := by
  have hfiled := filed_of_built h
  obtain ⟨pages, hpages, hflat⟩ := exists_pages hfiled hproper f
  refine ⟨pages, hpages, ?_, fun e => ?_⟩
  · rw [hflat]
    exact pairwise_matching hfiled hproper
  · rw [hflat]
    exact mem_matching_iff hfiled hproper

/-- An entry that can be handed out, after those that were written before it. -/
structure Fits (written : List (Entry × Bytes)) (w : Entry × Bytes) : Prop where
  short : w.2.length < scanLimit
  time : -2 ^ 63 ≤ w.1.time ∧ w.1.time < 2 ^ 63
  word : w.1.id ≠ "" ∧ ∀ c ∈ w.1.id.toList, isSpace c = false
  new : ∀ w' ∈ written, (w'.1.time, w'.1.id) ≠ (w.1.time, w.1.id)

theorem proper_of_built (h : Built json Fits log written) : Proper written := by
  induction h with
  | empty => exact ⟨nofun, nofun, nofun, nodup_nil⟩
  | @append log written e newID now _ hok ih =>
    cases hw : (log.append json e newID now).2 with
    | none => simpa using ih
    | some w =>
      have hfits := hok w hw
      have hcons {p : Entry × Bytes → Prop} (hold : ∀ w ∈ written, p w) (hnew : p w) :
          ∀ w' ∈ written ++ [w], p w' :=
        forall_mem_append.mpr ⟨hold, forall_mem_singleton.mpr hnew⟩
      refine ⟨hcons ih.short hfits.short, hcons ih.time hfits.time, hcons ih.word hfits.word, ?_⟩
      rw [toList_some, map_append]
      refine nodup_append.mpr ⟨ih.distinct, nodup_singleton _, fun key hkey key' hkey' => ?_⟩
      obtain ⟨w', hw', rfl⟩ := List.mem_map.mp hkey
      rw [mem_singleton.mp hkey']
      exact hfits.new w' hw'

/-- No entry is lost or hidden, in a log of entries that can be handed out. -/
theorem written_handed_out (h : Built json Fits log written) (limit : Int) :
    ∃ pages, Paging.Follows (log.page json { limit }) [] pages ∧ ∀ w ∈ written, w.1 ∈ pages.flatten := by
  have hfiled := filed_of_built h
  have hproper := proper_of_built h
  obtain ⟨pages, hpages, hflat⟩ := exists_pages hfiled hproper { limit }
  refine ⟨pages, hpages, fun w hw => ?_⟩
  rw [hflat, mem_matching_iff hfiled hproper]
  exact ⟨List.mem_map_of_mem hw, by simp [Filter.accepts]⟩

end

def plainEntry (id : String) (n : Nat) : Entry :=
  { id, time := 0, message := String.ofList (List.replicate n 'm') }

def plainLine (c : UInt8) (n : Nat) : Bytes := c :: List.replicate n 0x6d

def plainJson : EntryJson where
  marshal e :=
    if e = plainEntry "a" e.message.length then some (plainLine 0x61 e.message.length)
    else if e = plainEntry "b" e.message.length then some (plainLine 0x62 e.message.length)
    else none
  unmarshal
    | c :: rest => if c = 0x61 then some (plainEntry "a" rest.length) else some (plainEntry "b" rest.length)
    | [] => none
  roundTrip e line h := by
    split at h
    · next he =>
      cases h
      simpa [plainLine] using he.symm
    · split at h
      · next he =>
        cases h
        simpa [plainLine] using he.symm
      · cases h
  clean e line h := by
    split at h
    · cases h
      simp [plainLine, newline, carriageReturn]
    · split at h
      · cases h
        simp [plainLine, newline, carriageReturn]
      · cases h

theorem length_plainEntry (id : String) (n : Nat) : (plainEntry id n).message.length = n := by
  simp [plainEntry]

theorem append_plain (log : FileLog) {id : String} {c : UInt8} (n : Nat)
    (h : (id, c) = ("a", 0x61) ∨ (id, c) = ("b", 0x62)) :
    log.append plainJson (plainEntry id n) "" 0 =
      (⟨log.files.put 0 (log.content 0 ++ (plainLine c n ++ [newline]))⟩, some (plainEntry id n, plainLine c n)) := by
  have hne : id ≠ "" := by rcases h with h | h <;> cases h <;> decide
  have hmarshal : plainJson.marshal (plainEntry id n) = some (plainLine c n) := by
    rcases h with h | h <;> cases h <;> simp [plainJson, length_plainEntry]
    simp [plainEntry]
  have hsame : { plainEntry id n with
      id := if (plainEntry id n).id = "" then "" else (plainEntry id n).id
      time := if (plainEntry id n).time = zeroTime then 0 else (plainEntry id n).time } = plainEntry id n := by
    simp [plainEntry, zeroTime, hne]
  rw [FileLog.append, hsame, FileLog.write, hmarshal]
  rfl

def longLog (n : Nat) : FileLog :=
  ((FileLog.append plainJson {} (plainEntry "a" n) "" 0).1.append plainJson (plainEntry "b" 0) "" 0).1

theorem built_longLog (n : Nat) : Built plainJson (fun _ _ => True) (longLog n)
    [(plainEntry "a" n, plainLine 0x61 n), (plainEntry "b" 0, plainLine 0x62 0)] := by
  have hempty : Built plainJson (fun _ _ => True) {} [] := .empty
  have hsecond := (hempty.append (plainEntry "a" n) "" 0 fun _ _ => trivial).append (plainEntry "b" 0) "" 0
    fun _ _ => trivial
  rw [append_plain {} n (.inl rfl)] at hsecond
  rw [longLog, append_plain {} n (.inl rfl)]
  rwa [append_plain _ 0 (.inr rfl)] at hsecond ⊢

theorem readDay_longLog {n : Nat} (hn : scanLimit ≤ n) (f : Filter) (day : Int) :
    readDay plainJson f ((longLog n).content day) = [] := by
  have hscan : (scan scanLimit ((longLog n).content day)).1 = [] := by
    have hday (id : String) (n : Nat) : dayOf (plainEntry id n).time = 0 := Int.zero_ediv _
    have hclean : newline ∉ plainLine 0x61 n := by simp [plainLine, newline]
    have hlong : ¬ (plainLine 0x61 n).length < scanLimit := by
      simp only [plainLine, length_cons, length_replicate]
      omega
    rw [(filed_of_built (built_longLog n)).content]
    by_cases hzero : 0 = day
    · simp [hday, hzero, scan, rawLines_append_newline _ _ hclean, hlong]
    · simp [hday, hzero, scan, rawLines]
  rw [readDay, hscan]
  rfl

theorem pages_longLog {n : Nat} (hn : scanLimit ≤ n) {pages : List (List Entry)}
    (h : Paging.Follows ((longLog n).page plainJson {}) [] pages) : pages.flatten = [] := by
  have hnone : (longLog n).matching plainJson {} = [] := by
    refine eq_nil_iff_forall_not_mem.mpr fun e he => ?_
    rw [FileLog.matching, mem_mergeSort, mem_flatMap] at he
    obtain ⟨day, -, hmem⟩ := he
    rw [readDay_longLog hn] at hmem
    cases hmem
  have hall : (longLog n).remaining plainJson {} = [] := hnone
  have hpage : (longLog n).page plainJson {} [] = ([], none) := by
    simp [FileLog.page, FileLog.query, hall]
  cases h with
  | last => simp [hpage]
  | more hmore => cases (congrArg Prod.snd hpage).symm.trans hmore

/-- An entry whose line is as long as the buffer of the scanner is not handed out, nor the one after
it. -/
theorem long_entry_hides :
    Built plainJson (fun _ _ => True) (longLog scanLimit)
        [(plainEntry "a" scanLimit, plainLine 0x61 scanLimit), (plainEntry "b" 0, plainLine 0x62 0)] ∧
      ∀ pages, Paging.Follows ((longLog scanLimit).page plainJson {}) [] pages → pages.flatten = [] := by
  exact ⟨built_longLog scanLimit, fun pages => pages_longLog (le_refl scanLimit)⟩

theorem fits_plain (n : Nat) (hn : n + 1 < scanLimit) : Fits [] (plainEntry "a" n, plainLine 0x61 n) where
  short := by simpa [plainLine] using hn
  time := by simp [plainEntry]
  word := by
    refine ⟨by simp [plainEntry], fun c hc => ?_⟩
    obtain rfl : c = 'a' := by simpa [plainEntry] using hc
    decide
  new := nofun

theorem built_plain {ok : List (Entry × Bytes) → Entry × Bytes → Prop} (n : Nat)
    (hok : ok [] (plainEntry "a" n, plainLine 0x61 n)) :
    Built plainJson ok (FileLog.append plainJson {} (plainEntry "a" n) "" 0).1
      [(plainEntry "a" n, plainLine 0x61 n)] := by
  have hempty : Built plainJson ok {} [] := .empty
  have hbuilt := hempty.append (plainEntry "a" n) "" 0 (by simpa [append_plain {} n (.inl rfl)] using hok)
  rwa [append_plain {} n (.inl rfl)] at hbuilt ⊢

theorem short_entry_handed_out :
    ∃ pages, Paging.Follows ((FileLog.append plainJson {} (plainEntry "a" 3) "" 0).1.page plainJson { limit := 10 }) []
      pages ∧ plainEntry "a" 3 ∈ pages.flatten := by
  have hfits : Fits [] (plainEntry "a" 3, plainLine 0x61 3) := fits_plain 3 (by decide)
  obtain ⟨pages, hpages, hall⟩ := written_handed_out (built_plain 3 hfits) 10
  exact ⟨pages, hpages, hall _ mem_cons_self⟩

theorem short_entry_paged :
    ∃ pages, Paging.Follows ((FileLog.append plainJson {} (plainEntry "a" 3) "" 0).1.page plainJson { actor := "x" }) []
      pages ∧ plainEntry "a" 3 ∉ pages.flatten := by
  have hproper : Proper [(plainEntry "a" 3, plainLine 0x61 3)] :=
    proper_of_built (built_plain 3 (fits_plain 3 (by decide)))
  obtain ⟨pages, hpages, -, hexact⟩ := pages_exact (built_plain 3 trivial) hproper { actor := "x" }
  exact ⟨pages, hpages, fun hmem => by simp [hexact, Filter.accepts, plainEntry] at hmem⟩

/-- `curDay` is the day of the file that is open for writing. -/
def FileLog.prune (log : FileLog) (curDay : Option Int) (before : Time) : FileLog :=
  (log.dayFiles zeroTime zeroTime).foldl (fun log day =>
    if day * dayNanos + dayNanos < before ∧ curDay ≠ some day then ⟨log.files.remove day⟩ else log) log

theorem matching_remove (json : EntryJson) (log : FileLog) {f : Filter} (hsince : f.since ≠ zeroTime) {day : Int}
    (hday : day * dayNanos + dayNanos < f.since) :
    (FileLog.mk (log.files.remove day)).matching json f = log.matching json f := by
  have hpast : day * dayNanos < dayOf f.since * dayNanos := by
    have hle : day + 1 ≤ f.since / dayNanos := (Int.le_ediv_iff_mul_le (by decide)).mpr (by rw [Int.add_mul]; omega)
    exact Int.mul_lt_mul_of_pos_right (by unfold dayOf; omega) (by decide)
  have hdays : (FileLog.mk (log.files.remove day)).dayFiles f.since f.untilTime = log.dayFiles f.since f.untilTime := by
    have hkeys : (log.files.remove day).keys = log.files.keys.filter (· ≠ day) := by
      rw [OrderedMap.keys, OrderedMap.keys, remove, List.filter_map]
      rfl
    rw [FileLog.dayFiles, FileLog.dayFiles, hkeys, List.filter_filter]
    congr 1
    apply filter_congr
    intro other _
    by_cases hother : other = day
    · simp [hother, hsince, hpast]
    · simp [hother]
  rw [FileLog.matching, FileLog.matching, hdays]
  congr 1
  apply flatMap_congr
  intro other hother
  have hne : other ≠ day := by
    rintro rfl
    rw [FileLog.dayFiles, mem_mergeSort, mem_filter] at hother
    simp [hsince, hpast] at hother
  rw [FileLog.content, get?_remove, if_neg hne, FileLog.content]

/-- What is asked for since a time is answered as if nothing before it had been pruned. -/
theorem query_prune (json : EntryJson) (log : FileLog) (curDay : Option Int) (before : Time) (f : Filter) :
    f.since = zeroTime ∨ f.since < before ∨ (log.prune curDay before).query json f = log.query json f := by
  by_cases hsince : f.since = zeroTime
  · exact .inl hsince
  by_cases hbefore : f.since < before
  · exact .inr (.inl hbefore)
  right; right
  have hmatching (days : List Int) : (days.foldl (fun log day =>
      if day * dayNanos + dayNanos < before ∧ curDay ≠ some day then ⟨log.files.remove day⟩ else log) log).matching
        json f = log.matching json f := by
    induction days generalizing log with
    | nil => rfl
    | cons day days ih =>
      rw [foldl_cons, ih]
      split
      · next h => exact matching_remove json log hsince (h.1.trans_le (not_lt.mp hbefore))
      · rfl
  unfold FileLog.query FileLog.remaining FileLog.prune
  rw [hmatching]

end Nodra.Audit
