import Nodra.Server.Console

/-! The sessions of the console in their file: what is in memory and in the file against the
history of the tokens that were handed out. -/
namespace Nodra.Server
open Model List
open Std (ExtTreeMap)

section

structure SessionStore where
  byTok : ExtTreeMap String ConsoleSession := ∅
  file : List ConsoleSession := []

variable (s : SessionStore)

def SessionStore.saveLocked : SessionStore := { s with file := s.byTok.toList.map Prod.snd }

def SessionStore.pruneLocked (now : Time) : SessionStore :=
  if s.byTok.toList.any (·.2.expired now) then
    SessionStore.saveLocked { s with byTok := Server.pruneLocked now s.byTok }
  else s

def SessionStore.delete (tok : String) : SessionStore :=
  SessionStore.saveLocked { s with byTok := s.byTok.erase tok }

def SessionStore.insert (sess : ConsoleSession) : SessionStore :=
  SessionStore.saveLocked { s with byTok := s.byTok.insert sess.token sess }

def SessionStore.lookup (tok : String) (checked : Time) : Option ConsoleSession :=
  s.byTok[tok]?.filter fun sess => !sess.expired checked

def loadSession (now : Time) (byTok : ExtTreeMap String ConsoleSession) (sess : ConsoleSession) :
    ExtTreeMap String ConsoleSession :=
  if now < sess.expiresAt then byTok.insert sess.token sess else byTok

def SessionStore.load (now : Time) : SessionStore := { s with byTok := s.file.foldl (loadSession now) ∅ }

/-- The calls of a session store, with the clock as each reads it and the token it draws, and the
start of another process. -/
inductive SessionCall where
  | mint (role actor orgID tok : String) (ttl : Int) (made pruned : Time)
  | get (tok : String) (pruned checked : Time)
  | rotate (tok newTok : String) (ttl : Int) (pruned checked made : Time)
  | revoke (tok : String)
  | restart (now : Time)

def SessionCall.readings : SessionCall → List Time
  | .mint _ _ _ _ _ made pruned => [made, pruned]
  | .get _ pruned checked => [pruned, checked]
  | .rotate _ _ _ pruned checked made => [pruned, checked, made]
  | .revoke _ => []
  | .restart now => [now]

def SessionCall.run : SessionCall → SessionStore × Option ConsoleSession
  | .mint role actor orgID tok ttl made pruned =>
    let sess := { token := tok, role, actor, orgID, expiresAt := made + ttl }
    ((s.pruneLocked pruned).insert sess, some sess)
  | .get tok pruned checked =>
    let s := s.pruneLocked pruned
    match s.lookup tok checked with
    | none => (s.delete tok, none)
    | some sess => (s, some sess)
  | .rotate tok newTok ttl pruned checked made =>
    let s := s.pruneLocked pruned
    match s.lookup tok checked with
    | none => (s.delete tok, none)
    | some old =>
      let sess := { old with token := newTok, expiresAt := made + ttl }
      (SessionStore.insert { s with byTok := s.byTok.erase tok } sess, some sess)
  | .revoke tok => (s.delete tok, none)
  | .restart now => (s.load now, none)

end

/-- The tokens that were minted or produced by `rotate`: each with its session, without those that
were rotated away or revoked, and with the session first minted in its chain. -/
structure SessionHistory where
  issued : String → Option ConsoleSession := fun _ => none
  live : String → Option ConsoleSession := fun _ => none
  first : String → Option ConsoleSession := fun _ => none

open Function in
def SessionHistory.note (h : SessionHistory) : SessionCall → Option ConsoleSession → SessionHistory
  | .mint .., some sess =>
    ⟨update h.issued sess.token (some sess), update h.live sess.token (some sess),
      update h.first sess.token (some sess)⟩
  | .rotate tok .., some sess =>
    ⟨update h.issued sess.token (some sess), update (update h.live tok none) sess.token (some sess),
      update h.first sess.token (h.first tok)⟩
  | .revoke tok, _ => { h with live := update h.live tok none }
  | _, _ => h

/-- The store after some calls, with their history and the clock as it was read last, which does not
go back. -/
inductive Sessions : SessionStore → SessionHistory → Time → Prop where
  | empty (clock : Time) : Sessions {} {} clock
  | call {s : SessionStore} {h : SessionHistory} {clock : Time} (c : SessionCall) : Sessions s h clock →
      (clock :: c.readings).Pairwise (· ≤ ·) →
      Sessions (c.run s).1 (h.note c (c.run s).2) ((clock :: c.readings).getLastD clock)

section

structure Holds (byTok : ExtTreeMap String ConsoleSession) (h : SessionHistory) (clock : Time) : Prop where
  live : ∀ (tok : String) sess, byTok[tok]? = some sess → h.live tok = some sess
  held : ∀ tok sess, h.live tok = some sess → clock < sess.expiresAt → byTok[tok]? = some sess

structure SessionsKept (s : SessionStore) (h : SessionHistory) (clock : Time) : Prop
    extends Holds s.byTok h clock where
  filed : ∀ (tok : String) sess, s.byTok[tok]? = some sess → sess ∈ s.file
  sound : ∀ sess ∈ s.file, h.live sess.token = some sess

structure Chained (h : SessionHistory) : Prop where
  issued : ∀ tok sess, h.live tok = some sess → h.issued tok = some sess
  token : ∀ tok sess, h.issued tok = some sess → sess.token = tok
  first : ∀ tok sess, h.issued tok = some sess → ∃ origin, h.first tok = some origin ∧
    sess.role = origin.role ∧ sess.actor = origin.actor ∧ sess.orgID = origin.orgID

variable {s : SessionStore} {h : SessionHistory} {clock now : Time} {tok : String} {sess : ConsoleSession}
  {byTok : ExtTreeMap String ConsoleSession}

theorem mem_sessions_iff : sess ∈ byTok.toList.map Prod.snd ↔ ∃ tok : String, byTok[tok]? = some sess := by
  simp [ExtTreeMap.mem_toList_iff_getElem?_eq_some]

theorem Holds.mono (hh : Holds byTok h clock) (hclock : clock ≤ now) : Holds byTok h now :=
  ⟨hh.live, fun tok sess hlive hnow => hh.held tok sess hlive (lt_of_le_of_lt hclock hnow)⟩

theorem Holds.saveLocked (hh : Holds s.byTok h clock) (hc : Chained h) : SessionsKept s.saveLocked h clock where
  toHolds := hh
  filed := fun tok sess hget => mem_sessions_iff.mpr ⟨tok, hget⟩
  sound := by
    intro sess hmem
    obtain ⟨tok, hget⟩ := mem_sessions_iff.mp hmem
    have hlive := hh.live tok sess hget
    rw [hc.token tok sess (hc.issued tok sess hlive)]
    exact hlive

theorem SessionsKept.pruneLocked (hs : SessionsKept s h clock) (hc : Chained h) (hclock : clock ≤ now) :
    SessionsKept (s.pruneLocked now) h now := by
  unfold SessionStore.pruneLocked
  split
  · refine Holds.saveLocked ⟨fun tok sess hget => ?_, fun tok sess hlive hnow => ?_⟩ hc
    · simp only [Server.pruneLocked, ExtTreeMap.getElem?_filter'] at hget
      exact hs.live tok sess (Option.eq_some_of_filter_eq_some hget)
    · simp only [Server.pruneLocked, ExtTreeMap.getElem?_filter']
      rw [hs.held tok sess hlive (lt_of_le_of_lt hclock hnow)]
      simp [ConsoleSession.expired, le_of_lt hnow]
  · exact { hs with toHolds := hs.toHolds.mono hclock }

theorem Holds.erase {live : String → Option ConsoleSession} (hh : Holds byTok h clock)
    (hother : ∀ tok' ≠ tok, live tok' = h.live tok') (hgone : ∀ sess, live tok = some sess → sess.expiresAt ≤ clock) :
    Holds (byTok.erase tok) { h with live } clock where
  live := by
    intro tok' sess hget
    simp only [ExtTreeMap.getElem?_erase, Std.compare_eq_iff_eq] at hget
    split at hget
    · cases hget
    · next hne => exact (hother tok' (Ne.symm hne)).trans (hh.live tok' sess hget)
  held := by
    intro tok' sess hlive hclock
    simp only [ExtTreeMap.getElem?_erase, Std.compare_eq_iff_eq]
    split
    · next heq => exact absurd hclock (not_lt.mpr (hgone sess (heq ▸ hlive)))
    · next hne => exact hh.held tok' sess ((hother tok' (Ne.symm hne)).symm.trans hlive) hclock

theorem Holds.insert (hh : Holds byTok h clock) {h' : SessionHistory}
    (hlive : h'.live = Function.update h.live sess.token (some sess)) :
    Holds (byTok.insert sess.token sess) h' clock where
  live := by
    intro tok sess' hget
    simp only [ExtTreeMap.getElem?_insert, Std.compare_eq_iff_eq] at hget
    rw [hlive, Function.update_apply]
    split at hget
    · next heq => rw [if_pos heq.symm, hget]
    · next hne =>
      rw [if_neg (Ne.symm hne)]
      exact hh.live tok sess' hget
  held := by
    intro tok sess' hget hclock
    simp only [ExtTreeMap.getElem?_insert, Std.compare_eq_iff_eq]
    rw [hlive, Function.update_apply] at hget
    split at hget
    · next heq => rw [if_pos heq.symm, hget]
    · next hne =>
      rw [if_neg (Ne.symm hne)]
      exact hh.held tok sess' hget hclock

theorem Holds.of_lookup_none (hh : Holds s.byTok h now) {checked : Time} (hclock : now ≤ checked)
    (hnone : s.lookup tok checked = none) (hlive : h.live tok = some sess) : sess.expiresAt ≤ checked := by
  by_contra hlt
  rw [not_le] at hlt
  rw [SessionStore.lookup, hh.held tok sess hlive (lt_of_le_of_lt hclock hlt)] at hnone
  simp [ConsoleSession.expired, not_lt.mpr (le_of_lt hlt)] at hnone

theorem Holds.of_lookup_some (hh : Holds s.byTok h now) {checked : Time}
    (hsome : s.lookup tok checked = some sess) : h.live tok = some sess ∧ checked ≤ sess.expiresAt := by
  obtain ⟨hget, hexpired⟩ := Option.filter_eq_some_iff.mp hsome
  exact ⟨hh.live tok sess hget, by simpa [ConsoleSession.expired] using hexpired⟩

theorem SessionsKept.delete_none (hs : SessionsKept s h now) (hc : Chained h) {checked : Time} (hclock : now ≤ checked)
    (hnone : s.lookup tok checked = none) : SessionsKept (s.delete tok) h checked :=
  ((hs.toHolds.mono hclock).erase (fun _ _ => rfl) fun _ hlive =>
    hs.toHolds.of_lookup_none hclock hnone hlive).saveLocked hc

theorem of_getElem?_load {list : List ConsoleSession} (hget : (list.foldl (loadSession now) byTok)[tok]? = some sess) :
    byTok[tok]? = some sess ∨ sess ∈ list ∧ sess.token = tok := by
  induction list generalizing byTok with
  | nil => exact .inl hget
  | cons head list ih =>
    rcases ih hget with hold | ⟨hmem, htok⟩
    · unfold loadSession at hold
      split at hold
      · simp only [ExtTreeMap.getElem?_insert, Std.compare_eq_iff_eq] at hold
        split at hold
        · next heq =>
          cases hold
          exact .inr ⟨mem_cons_self, heq⟩
        · exact .inl hold
      · exact .inl hold
    · exact .inr ⟨mem_cons_of_mem head hmem, htok⟩

theorem getElem?_load {list : List ConsoleSession} (honly : ∀ other ∈ list, other.token = tok → other = sess)
    (hnow : now < sess.expiresAt) (h : byTok[tok]? = some sess ∨ sess ∈ list ∧ sess.token = tok) :
    (list.foldl (loadSession now) byTok)[tok]? = some sess := by
  induction list generalizing byTok with
  | nil => exact h.resolve_right fun hmem => not_mem_nil hmem.1
  | cons head list ih =>
    refine ih (fun other hother => honly other (mem_cons_of_mem head hother)) ?_
    unfold loadSession
    by_cases htok : head.token = tok
    · obtain rfl := honly head mem_cons_self htok
      left
      rw [if_pos hnow, ← htok, ExtTreeMap.getElem?_insert_self]
    · rcases h with hold | ⟨hmem, hsame⟩
      · left
        split
        · simpa [ExtTreeMap.getElem?_insert, htok] using hold
        · exact hold
      · exact .inr ⟨(mem_cons.mp hmem).resolve_left fun heq => htok (heq ▸ hsame), hsame⟩

theorem SessionsKept.load (hs : SessionsKept s h clock) (hc : Chained h) (hclock : clock ≤ now) :
    SessionsKept (s.load now) h now := by
  have hmem {tok : String} {sess : ConsoleSession} (hget : (s.load now).byTok[tok]? = some sess) :
      sess ∈ s.file ∧ sess.token = tok :=
    (of_getElem?_load hget).resolve_left (by simp)
  refine ⟨⟨fun tok sess hget => ?_, fun tok sess hlive hnow => ?_⟩, fun tok sess hget => (hmem hget).1, hs.sound⟩
  · rw [← (hmem hget).2]
    exact hs.sound sess (hmem hget).1
  · have hget := hs.held tok sess hlive (lt_of_le_of_lt hclock hnow)
    refine getElem?_load (fun other hother htok => ?_) hnow (.inr ⟨hs.filed tok sess hget, ?_⟩)
    · have hsame := hs.sound other hother
      rw [htok, hlive] at hsame
      exact (Option.some.inj hsame).symm
    · exact hc.token tok sess (hc.issued tok sess hlive)

theorem SessionsKept.mono (hs : SessionsKept s h clock) (hclock : clock ≤ now) : SessionsKept s h now :=
  { hs with toHolds := hs.toHolds.mono hclock }

theorem Chained.issue (hc : Chained h) {live : String → Option ConsoleSession} {origin : ConsoleSession}
    (hlive : ∀ tok sess', live tok = some sess' → tok ≠ sess.token → h.live tok = some sess')
    (hself : live sess.token = some sess)
    (horigin : sess.role = origin.role ∧ sess.actor = origin.actor ∧ sess.orgID = origin.orgID) :
    Chained ⟨Function.update h.issued sess.token (some sess), live,
      Function.update h.first sess.token (some origin)⟩ where
  issued := by
    intro tok sess' hget
    simp only [Function.update_apply]
    split
    · next heq => exact hself.symm.trans ((congrArg live heq.symm).trans hget)
    · next hne => exact hc.issued tok sess' (hlive tok sess' hget hne)
  token := by
    intro tok sess' hget
    simp only [Function.update_apply] at hget
    split at hget
    · next heq =>
      cases hget
      exact heq.symm
    · exact hc.token tok sess' hget
  first := by
    intro tok sess' hget
    simp only [Function.update_apply] at hget ⊢
    split at hget
    · next heq =>
      cases hget
      exact ⟨origin, if_pos heq, horigin⟩
    · next hne =>
      rw [if_neg hne]
      exact hc.first tok sess' hget

theorem Chained.revoke (hc : Chained h) (tok : String) :
    Chained { h with live := Function.update h.live tok none } where
  issued := by
    intro tok' sess' hget
    simp only [Function.update_apply] at hget
    split at hget
    · cases hget
    · exact hc.issued tok' sess' hget
  token := hc.token
  first := hc.first

theorem Holds.revoke (hh : Holds byTok h clock) (tok : String) :
    Holds (byTok.erase tok) { h with live := Function.update h.live tok none } clock :=
  hh.erase (fun _ hne => Function.update_of_ne hne ..) (by simp)

theorem SessionsKept.call (hs : SessionsKept s h clock) (hc : Chained h) (c : SessionCall)
    (hclock : (clock :: c.readings).Pairwise (· ≤ ·)) :
    SessionsKept (c.run s).1 (h.note c (c.run s).2) ((clock :: c.readings).getLastD clock) ∧
      Chained (h.note c (c.run s).2) := by
  cases c with
  | mint role actor orgID tok ttl made pruned =>
    simp only [SessionCall.readings, pairwise_cons, mem_cons, forall_eq_or_imp] at hclock
    set sess : ConsoleSession := { token := tok, role, actor, orgID, expiresAt := made + ttl }
    have hissued : Chained (h.note (.mint role actor orgID tok ttl made pruned) (some sess)) :=
      hc.issue (fun _ _ hget hne => (Function.update_of_ne hne ..).symm.trans hget) (Function.update_self ..)
        ⟨rfl, rfl, rfl⟩
    exact ⟨((hs.pruneLocked hc hclock.1.2.1).toHolds.insert rfl).saveLocked hissued, hissued⟩
  | get tok pruned checked =>
    simp only [SessionCall.readings, pairwise_cons, mem_cons, forall_eq_or_imp] at hclock
    have hpruned := hs.pruneLocked hc hclock.1.1
    simp only [SessionCall.run]
    split
    · next hnone => exact ⟨hpruned.delete_none hc hclock.2.1.1 hnone, hc⟩
    · exact ⟨hpruned.mono hclock.2.1.1, hc⟩
  | rotate tok newTok ttl pruned checked made =>
    simp only [SessionCall.readings, pairwise_cons, mem_cons, forall_eq_or_imp] at hclock
    obtain ⟨hbegin, ⟨hchecked, hmade, -⟩, ⟨hlast, -⟩, -⟩ := hclock
    have hpruned := hs.pruneLocked hc hbegin.1
    simp only [SessionCall.run]
    split
    · next hnone => exact ⟨(hpruned.delete_none hc hchecked hnone).mono hlast, hc⟩
    · next old hsome =>
      obtain ⟨hlive, -⟩ := hpruned.toHolds.of_lookup_some hsome
      obtain ⟨origin, hfirst, hcarries⟩ := hc.first tok old (hc.issued tok old hlive)
      set sess : ConsoleSession := { old with token := newTok, expiresAt := made + ttl }
      have hissued : Chained (h.note (.rotate tok newTok ttl pruned checked made) (some sess)) := by
        rw [SessionHistory.note, hfirst]
        refine hc.issue (fun tok' sess' hget hne => ?_) (Function.update_self ..) hcarries
        rw [Function.update_of_ne hne, Function.update_apply] at hget
        split at hget
        · cases hget
        · exact hget
      refine ⟨Holds.saveLocked ?_ hissued, hissued⟩
      exact ((hpruned.toHolds.revoke tok).insert rfl).mono hmade
  | revoke tok => exact ⟨(hs.toHolds.revoke tok).saveLocked (hc.revoke tok), hc.revoke tok⟩
  | restart now =>
    simp only [SessionCall.readings, pairwise_cons, mem_cons, forall_eq_or_imp] at hclock
    exact ⟨hs.load hc hclock.1.1, hc⟩

theorem kept_of_sessions (hs : Sessions s h clock) : SessionsKept s h clock ∧ Chained h := by
  induction hs with
  | empty clock => exact ⟨⟨⟨by simp, nofun⟩, by simp, nofun⟩, nofun, nofun, nofun⟩
  | call c _ hclock ih => exact ih.1.call ih.2 c hclock

end

/-- Whatever calls and restarts came before: a live token is found before its expiry, what is found
is live and not past it, and all that was handed out carries what its chain began with. -/
theorem session_valid_iff_live {s : SessionStore} {h : SessionHistory} {clock : Time} (hs : Sessions s h clock)
    (tok : String) {pruned checked : Time} (hpruned : clock ≤ pruned) (hchecked : pruned ≤ checked) :
    (∀ sess, h.live tok = some sess → checked < sess.expiresAt →
      ((SessionCall.get tok pruned checked).run s).2 = some sess) ∧
    (∀ sess, ((SessionCall.get tok pruned checked).run s).2 = some sess →
      h.live tok = some sess ∧ checked ≤ sess.expiresAt) ∧
    ∀ sess, h.issued tok = some sess → ∃ origin, h.first tok = some origin ∧
      sess.role = origin.role ∧ sess.actor = origin.actor ∧ sess.orgID = origin.orgID := by
  obtain ⟨hkept, hchained⟩ := kept_of_sessions hs
  have hholds := (hkept.pruneLocked hchained hpruned).toHolds
  have hresult : ((SessionCall.get tok pruned checked).run s).2 = (s.pruneLocked pruned).lookup tok checked := by
    simp only [SessionCall.run]
    split
    · next hnone => exact hnone.symm
    · next hsome => exact hsome.symm
  rw [hresult]
  refine ⟨fun sess hlive hlt => ?_, fun sess hsome => hholds.of_lookup_some hsome, hchained.first tok⟩
  cases hfound : (s.pruneLocked pruned).lookup tok checked with
  | none => exact absurd hlt (not_lt.mpr (hholds.of_lookup_none hchecked hfound hlive))
  | some other => exact (hholds.of_lookup_some hfound).1.symm.trans hlive

theorem minted_session_found : ∃ s h, Sessions s h 20 ∧
    ((SessionCall.get "a" 30 30).run s).2 = some { token := "a", role := "admin", actor := "root", expiresAt := 100 } := by
  have hrun := Sessions.call (.restart 20) (.call (.mint "admin" "root" "" "a" 100 0 0) (.empty 0) (by decide))
    (by decide)
  exact ⟨_, _, hrun, (session_valid_iff_live hrun "a" (by decide) (by decide)).1 _ rfl (by decide)⟩

end Nodra.Server
