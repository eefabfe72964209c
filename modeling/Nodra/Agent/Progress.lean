import Nodra.Agent.Alone

/-! `flush` against a working server: one call deletes events from the spool exactly when
the first batch it sends fits the body limit of the server. -/
namespace Nodra.Agent
open Model Std Server Lines JsonString JsonText List OrderedMap

section

variable (setting : Setting)

def Shrinks (w w' : World) : Prop := w'.spool.entries.Sublist w.spool.entries

theorem shrinks_deleteSpooled (w : World) (id : String) : Shrinks w (deleteSpooled w id) :=
  filter_sublist

theorem spool_postBatch (w : World) (batch : List Event) :
    (postBatch setting w batch).1.spool = w.spool := rfl

theorem shrinks_deleteAccepted (ok : List String) (batch : List Event) (w : World) :
    Shrinks w (deleteAccepted ok batch w).1 := by
  induction batch generalizing w with
  | nil => exact List.Sublist.refl _
  | cons ev batch ih =>
    unfold deleteAccepted
    split
    · exact (ih _).trans (shrinks_deleteSpooled w ev.id)
    · exact List.Sublist.refl _

theorem shrinks_flushOneByOne (items : List Event) (w : World) :
    Shrinks w (flushOneByOne setting items w) := by
  induction items generalizing w with
  | nil => exact List.Sublist.refl _
  | cons ev items ih =>
    unfold flushOneByOne
    simp only
    split
    · exact (ih _).trans (shrinks_deleteSpooled _ ev.id)
    · exact List.Sublist.refl _

theorem shrinks_flushBatches (items : List Event) (w : World) :
    Shrinks w (flushBatches setting items w) := by
  fun_induction flushBatches setting items w
  case case1 => exact List.Sublist.refl _
  case case2 => exact List.Sublist.refl _
  case case3 ih => exact ih.trans (shrinks_flushOneByOne setting _ _)
  case case4 => exact shrinks_flushOneByOne setting _ _
  case case5 ih => exact ih.trans (shrinks_deleteAccepted _ _ _)
  case case6 => exact shrinks_deleteAccepted _ _ _

theorem Shrinks.size_le {w w' : World} (h : Shrinks w w') : w'.spool.size ≤ w.spool.size :=
  h.length_le

end

section

variable {setting : Setting} {w : World}

def Accepts (setting : Setting) (w : World) (ev : Event) : Prop :=
  (postBatch setting w [ev]).2.code = 202 ∧
    ∀ r ∈ (postBatch setting w [ev]).2.results, r.error = ""

theorem postBatch_of_big {batch : List Event}
    (h : setting.maxBodyBytes < (encodeBatch setting.wire setting.cfg batch).length) :
    (postBatch setting w batch).2.code = 400 := by
  simp only [postBatch, post, handle, if_pos h, respond]

theorem resultOf_error {event : EventIn} {answer : Answer} :
    (resultOf event answer).error = "" ↔ answer.error = "" := by
  unfold resultOf
  split
  · rfl
  · rename_i h
    exact iff_of_true rfl (not_not.mp h)

def firstAnswer (setting : Setting) (w : World) (ev : Event) : Answer :=
  (ingestAgentEvent setting.env.server (setting.choice (eventIn ev)) w.server
    ⟨setting.cfg.siteID, eventIn ev⟩).2

def Authorized (setting : Setting) (w : World) : Prop :=
  agentSite setting.env.server w.server (batchRequest setting.cfg []).toCredentials
    setting.cfg.siteID ≠ none

theorem postBatch_of_fits {batch : List Event} (hne : batch ≠ [])
    (hfits : (encodeBatch setting.wire setting.cfg batch).length ≤ setting.maxBodyBytes)
    (hauthorized : Authorized setting w) (hlength : batch.length ≤ maxBatch) :
    (postBatch setting w batch).2.code = 202 ∧
      (postBatch setting w batch).2.results =
        (ingestAll setting.env.server setting.choice setting.cfg.siteID (batch.map eventIn) w.server).2.map
          fun entry => resultOf entry.1 entry.2 := by
  have hsite : ¬ (agentSite setting.env.server w.server
      (batchRequest setting.cfg batch).toCredentials (batchRequest setting.cfg batch).siteID).isNone := by
    rw [Option.isNone_iff_eq_none]
    exact hauthorized
  have hevents : ¬ (batch.map eventIn).length > maxBatch := by
    rw [length_map]
    omega
  have hposted : (postBatch setting w batch).2 =
      (eventsBatch setting.env.server setting.choice w.server (batchRequest setting.cfg batch)
        (batch.map eventIn)).2 := by
    simp only [postBatch, post, handle, if_neg (Nat.not_lt.mpr hfits), if_neg hsite]
    rfl
  rw [hposted, eventsBatch, if_neg (by simpa using hne), if_neg hevents]
  exact ⟨rfl, rfl⟩

theorem accepts_iff (ev : Event) :
    Accepts setting w ev ↔
      (encodeBatch setting.wire setting.cfg [ev]).length ≤ setting.maxBodyBytes ∧
        Authorized setting w ∧ (firstAnswer setting w ev).error = "" := by
  have hlength : [ev].length ≤ maxBatch := by simp [maxBatch]
  constructor
  · intro h
    have hfits : (encodeBatch setting.wire setting.cfg [ev]).length ≤ setting.maxBodyBytes := by
      by_contra hbig
      have hcode := h.1
      rw [postBatch_of_big (Nat.lt_of_not_le hbig)] at hcode
      omega
    have hauthorized : Authorized setting w := by
      intro hsite
      have hnone : (agentSite setting.env.server w.server
          (batchRequest setting.cfg [ev]).toCredentials (batchRequest setting.cfg [ev]).siteID).isNone :=
        Option.isNone_iff_eq_none.mpr hsite
      have hcode := h.1
      simp only [postBatch, post, handle, if_neg (Nat.not_lt.mpr hfits), if_pos hnone, respond] at hcode
      omega
    obtain ⟨-, hresults⟩ := postBatch_of_fits (by simp) hfits hauthorized hlength
    have herror := h.2
    rw [hresults] at herror
    exact ⟨hfits, hauthorized, resultOf_error.mp (herror _ mem_cons_self)⟩
  · rintro ⟨hfits, hauthorized, herror⟩
    obtain ⟨hcode, hresults⟩ := postBatch_of_fits (by simp) hfits hauthorized hlength
    refine ⟨hcode, fun r hr => ?_⟩
    rw [hresults] at hr
    rw [mem_singleton.mp hr]
    exact resultOf_error.mpr herror

end

def Spooled (w : World) : Prop := ∀ id ev, w.spool.get? id = some ev → ev.id = id ∧ id ≠ ""

def firstBody (setting : Setting) (w : World) : Bytes :=
  encodeBatch setting.wire setting.cfg (w.spool.values.take batchSize)

section

variable {setting : Setting} {w : World}

theorem okIDs_of_first {ev : Event} {reply : Reply} {others : List Result} {answer : Answer}
    (hresults : reply.results = resultOf (eventIn ev) answer :: others) (herror : answer.error = "")
    (hid : answer.eventID = ev.id) (hne : ev.id ≠ "") : ev.id ∈ okIDs reply := by
  have hresult : resultOf (eventIn ev) answer =
      { eventID := ev.id, status := answer.code, duplicate := answer.duplicate } := by
    simp only [resultOf, herror, ne_eq, not_true_eq_false, if_false, hid]
  unfold okIDs
  rw [hresults, hresult]
  simp [hne]

theorem size_flushBatches_lt {items : List Event} (hne : items ≠ []) {ok : List String}
    (hverdict : verdict (postBatch setting w (items.take batchSize)).2 = .delete ok)
    (hok : ∀ ev, items.head? = some ev → ev.id ∈ ok ∧ ev.id ∈ w.spool) :
    (flushBatches setting items w).spool.size < w.spool.size := by
  obtain ⟨ev, rest, rfl⟩ := exists_cons_of_ne_nil hne
  obtain ⟨hmem, hspool⟩ := hok ev rfl
  have hbatch : (ev :: rest).take batchSize = ev :: rest.take (batchSize - 1) := rfl
  have hdeleted : ∀ posted : World, posted.spool = w.spool →
      (deleteAccepted ok ((ev :: rest).take batchSize) posted).1.spool.size < w.spool.size := by
    intro posted hposted
    rw [hbatch, deleteAccepted, if_pos hmem]
    refine Nat.lt_of_le_of_lt (shrinks_deleteAccepted _ _ _).size_le ?_
    simp only [deleteSpooled, hposted]
    exact size_remove_of_mem hspool
  rw [flushBatches, if_neg hne]
  simp only [hverdict]
  split
  · refine Nat.lt_of_le_of_lt (shrinks_flushBatches setting _ _).size_le ?_
    exact hdeleted _ (spool_postBatch setting w _)
  · exact hdeleted _ (spool_postBatch setting w _)

theorem size_flush_lt (hspooled : Spooled w) (hne : w.spool.values ≠ [])
    (haccepts : ∀ ev ∈ w.spool.values, Accepts setting w ev)
    (hfits : (firstBody setting w).length ≤ setting.maxBodyBytes) :
    (flush setting w).spool.size < w.spool.size := by
  unfold flush firstBody at *
  obtain ⟨ev, rest, hvalues⟩ := exists_cons_of_ne_nil hne
  have hmem : ev ∈ w.spool.values := by
    rw [hvalues]
    exact mem_cons_self
  obtain ⟨entry, hentry, rfl⟩ := List.mem_map.mp hmem
  have hget := get?_of_mem_entries hentry
  obtain ⟨hid, hid_ne⟩ := hspooled _ _ hget
  obtain ⟨-, hauthorized, herror⟩ := (accepts_iff _).mp (haccepts _ hmem)
  have hbatch : w.spool.values.take batchSize = entry.2 :: rest.take (batchSize - 1) := by
    rw [hvalues]
    rfl
  have hlength : (entry.2 :: rest.take (batchSize - 1)).length ≤ maxBatch := by
    rw [← hbatch]
    exact (length_take_le _ _).trans (by decide)
  rw [hbatch] at hfits
  obtain ⟨hcode, hresults⟩ := postBatch_of_fits (by simp) hfits hauthorized hlength
  have hanswer : (firstAnswer setting w entry.2).eventID = entry.2.id := by
    refine (eventID_ingestAgentEvent _ _ _ _ herror).trans (if_neg ?_)
    rw [← hid] at hid_ne
    exact hid_ne
  -- the first answer of the loop heads the results
  obtain ⟨others, hresults⟩ : ∃ others,
      (postBatch setting w (entry.2 :: rest.take (batchSize - 1))).2.results =
        resultOf (eventIn entry.2) (firstAnswer setting w entry.2) :: others := ⟨_, hresults⟩
  have hverdict : verdict (postBatch setting w (entry.2 :: rest.take (batchSize - 1))).2 =
      .delete (okIDs (postBatch setting w (entry.2 :: rest.take (batchSize - 1))).2) := by
    simp [verdict, hcode, isSuccess, hresults]
  refine size_flushBatches_lt hne (by rw [hbatch]; exact hverdict) fun ev' hev' => ?_
  rw [hvalues] at hev'
  cases hev'
  rw [← hid] at hid_ne hget
  exact ⟨okIDs_of_first hresults herror hanswer hid_ne, by rw [mem_iff_get?, hget]; rfl⟩

theorem spool_flush_of_big (hbig : setting.maxBodyBytes < (firstBody setting w).length) :
    (flush setting w).spool = w.spool := by
  have hcode : (postBatch setting w (w.spool.values.take batchSize)).2.code = 400 :=
    postBatch_of_big hbig
  have hstop : verdict (postBatch setting w (w.spool.values.take batchSize)).2 = .stop := by
    simp [verdict, hcode, isSuccess]
  rw [flush, flushBatches]
  split
  · rfl
  · simp only [hstop, spool_postBatch]

/-- Progress of `flush`: on a spool whose events a working server accepts one by one, a
call deletes something exactly when the first batch fits the body limit. -/
theorem flush_progress_iff (setting : Setting) (w : World) (hspooled : Spooled w)
    (hne : w.spool.values ≠ []) (haccepts : ∀ ev ∈ w.spool.values, Accepts setting w ev) :
    (flush setting w).spool.size < w.spool.size ↔
      (firstBody setting w).length ≤ setting.maxBodyBytes := by
  refine ⟨fun hless => ?_, size_flush_lt hspooled hne haccepts⟩
  by_contra hbig
  rw [spool_flush_of_big (Nat.lt_of_not_le hbig)] at hless
  omega

end

def plainWire : Wire where
  utf8 := ascii
  time _ := ascii "0001-01-01T00:00:00Z"
  payload p := ascii p.text

/-- The agent and the server of a site, with the server's default limit. -/
noncomputable def plainSetting : Setting where
  env := plainEnv
  cfg := someConfig
  wire := plainWire
  choice _ := {}
  maxBodyBytes := 2 ^ 20

def numberEvent (id : String) (n : Nat) : Event :=
  { id, topic := "t", payload := ⟨String.ofList (List.replicate n '1')⟩ }

theorem length_encodeEvent_numberEvent (id : String) (n : Nat) :
    (encodeEvent plainWire (numberEvent id n)).length =
      (encodeEvent plainWire (numberEvent id 0)).length + n := by
  have hpayload : ∀ n, (plainWire.payload (numberEvent id n).payload).length = n := by
    simp [plainWire, numberEvent, ascii]
  simp only [encodeEvent, renderObject, renderMembers, renderMember, length_cons,
    length_append, hpayload]
  simp only [numberEvent]
  omega

theorem length_encodeBatch_numberEvent (ids : List String) (n : Nat) :
    (encodeBatch plainWire someConfig (ids.map (numberEvent · n))).length =
      (encodeBatch plainWire someConfig (ids.map (numberEvent · 0))).length + ids.length * n := by
  have hrest : ∀ rest : List String,
      (((rest.map (numberEvent · n)).map (encodeEvent plainWire)).flatMap (0x2c :: ·)).length =
        (((rest.map (numberEvent · 0)).map (encodeEvent plainWire)).flatMap (0x2c :: ·)).length +
          rest.length * n := by
    intro rest
    induction rest with
    | nil => simp
    | cons id rest ih =>
      simp only [map_cons, flatMap_cons, length_append, length_cons, ih,
        length_encodeEvent_numberEvent id n, Nat.succ_mul]
      omega
  cases ids with
  | nil => simp
  | cons id rest =>
    simp only [encodeBatch, renderObject, renderMembers, renderMember, renderArray, map_cons,
      length_cons, length_append, hrest, length_encodeEvent_numberEvent id n, Nat.succ_mul]
    omega

def twoWorld (n : Nat) : World :=
  { server := someServer
    spool := (OrderedMap.empty.put "a" (numberEvent "a" n)).put "b" (numberEvent "b" n) }

theorem values_twoWorld (n : Nat) :
    (twoWorld n).spool.values = ["a", "b"].map (numberEvent · n) := rfl

theorem spooled_twoWorld (n : Nat) : Spooled (twoWorld n) := by
  intro id ev hget
  simp only [twoWorld, get?_put] at hget
  split at hget
  · next h => cases hget; exact ⟨h.symm, by rw [h]; decide⟩
  · split at hget
    · next h => cases hget; exact ⟨h.symm, by rw [h]; decide⟩
    · cases hget

theorem authorized_twoWorld (n : Nat) : Authorized plainSetting (twoWorld n) := by
  show agentSite Server.plainEnv someServer (batchRequest someConfig []).toCredentials
    someConfig.siteID ≠ none
  decide

theorem accepts_numberEvent {n : Nat} (hpos : 0 < n) (hle : n ≤ 10 ^ 6) {id : String}
    (hid : id ∈ ["a", "b"]) : Accepts plainSetting (twoWorld n) (numberEvent id n) := by
  refine (accepts_iff _).mpr ⟨?_, authorized_twoWorld n, ?_⟩
  · have hlength := length_encodeBatch_numberEvent [id] n
    have hempty : ∀ id ∈ ["a", "b"],
        (encodeBatch plainWire someConfig ([id].map (numberEvent · 0))).length ≤ 1000 := by
      decide +kernel
    have hempty := hempty id hid
    simp only [map_cons, map_nil, length_singleton] at hlength hempty
    show (encodeBatch plainWire someConfig [numberEvent id n]).length ≤ 2 ^ 20
    omega
  · refine (error_ingestAgentEvent _ _ _ _).mpr ⟨by simp [eventIn, numberEvent], ?_⟩
    simp only [eventIn, numberEvent, ne_eq, String.ofList_eq_empty_iff, replicate_eq_nil_iff]
    omega

theorem accepts_twoWorld {n : Nat} (hpos : 0 < n) (hle : n ≤ 10 ^ 6) :
    ∀ ev ∈ (twoWorld n).spool.values, Accepts plainSetting (twoWorld n) ev := by
  intro ev hev
  rw [values_twoWorld] at hev
  obtain ⟨id, hid, rfl⟩ := List.mem_map.mp hev
  exact accepts_numberEvent hpos hle hid

theorem flush_progress_on_small_events :
    (twoWorld 1).spool.size = 2 ∧ (flush plainSetting (twoWorld 1)).spool.size < 2 := by
  have hfits : (firstBody plainSetting (twoWorld 1)).length ≤ plainSetting.maxBodyBytes := by
    decide +kernel
  exact ⟨rfl, (flush_progress_iff plainSetting (twoWorld 1) (spooled_twoWorld 1)
    (by simp [values_twoWorld]) (accepts_twoWorld (by decide) (by decide))).mpr hfits⟩

/-- Two events that the server accepts one by one: together they are above its limit, and
`flush` deletes neither. -/
theorem flush_stuck_on_large_events :
    Spooled (twoWorld 600000) ∧ (twoWorld 600000).spool.size = 2 ∧
      (∀ ev ∈ (twoWorld 600000).spool.values, Accepts plainSetting (twoWorld 600000) ev) ∧
      (flush plainSetting (twoWorld 600000)).spool.size = 2 := by
  refine ⟨spooled_twoWorld _, rfl, accepts_twoWorld (by decide) (by decide), ?_⟩
  have hlength := length_encodeBatch_numberEvent ["a", "b"] 600000
  have hbig : plainSetting.maxBodyBytes < (firstBody plainSetting (twoWorld 600000)).length := by
    show 2 ^ 20 < (encodeBatch plainWire someConfig (["a", "b"].map (numberEvent · 600000))).length
    rw [hlength]
    simp only [length_cons, length_nil]
    omega
  rw [spool_flush_of_big hbig]
  rfl

end Nodra.Agent
