import Nodra.Store.Durability

/-! A crash inside `compactLocked`.  Between the two file writes the log is
replayed over a snapshot that already contains it; that is harmless only for
logs whose operations do not append. -/
namespace Nodra.Store
open Lines JsonText Model Relation KeyedList List Option

def Mutation.appends : Mutation → Bool
  | .siteAdd _ => true
  | .routeAdd _ => true
  | .deploymentAdd _ => true
  | .policyAdd _ => true
  | .otaCampaignAdd _ => true
  | .orgAdd _ => true
  | .alertAdd _ => true
  | .eventAdd _ => true
  | _ => false

def updateAll (st : State) (ms : List Mutation) : State := ms.foldl Mutation.update st

def applyAll (mem : Mem) (ms : List Mutation) : Mem := ms.foldl Mutation.apply mem

theorem applyAll_state (mem : Mem) (ms : List Mutation) :
    (applyAll mem ms).state = updateAll mem.state ms := by
  induction ms generalizing mem with
  | nil => rfl
  | cons m ms ih => exact ih (m.apply mem)

theorem updateAll_concat (st : State) (ms : List Mutation) (m : Mutation) :
    updateAll st (ms ++ [m]) = m.update (updateAll st ms) := by
  simp [updateAll]

theorem component_updateAll {α E : Type} (component : State → List α) (edit? : Mutation → Option E)
    (run : List α → E → List α)
    (hstep : ∀ st m, m.appends = false →
      component (m.update st) = (edit? m).elim (component st) (run (component st)))
    (ms : List Mutation) (h : ∀ m ∈ ms, m.appends = false) (st : State) :
    component (updateAll st ms) = (ms.filterMap edit?).foldl run (component st) := by
  induction ms generalizing st with
  | nil => rfl
  | cons m ms ih =>
    have hm := hstep st m (h m (by simp))
    change component (updateAll (m.update st) ms) = _
    rw [ih (fun m' hm' => h m' (mem_cons_of_mem _ hm')), hm]
    cases hedit : edit? m with
    | none => rw [filterMap_cons_none hedit, elim_none]
    | some e => rw [filterMap_cons_some hedit, elim_some, foldl_cons]

theorem component_settled {α E : Type} (component : State → List α) (edit? : Mutation → Option E)
    (run : List α → E → List α)
    (hstep : ∀ st m, m.appends = false →
      component (m.update st) = (edit? m).elim (component st) (run (component st)))
    (hidem : ∀ xs edits, List.foldl run (List.foldl run xs edits) edits = List.foldl run xs edits)
    (ms : List Mutation) (h : ∀ m ∈ ms, m.appends = false) (st : State) :
    component (updateAll (updateAll st ms) ms) = component (updateAll st ms) := by
  rw [component_updateAll component edit? run hstep ms h,
    component_updateAll component edit? run hstep ms h, hidem]

def Mutation.siteUpsert : Mutation → Option Site
  | .siteSet v => some v
  | _ => none

def Mutation.deviceUpsert : Mutation → Option Device
  | .deviceAdd v => some v
  | _ => none

def Mutation.twinUpsert : Mutation → Option Twin
  | .twinSet v => some v
  | _ => none

def Mutation.routeEdit : Mutation → Option (Edit Route String)
  | .routeDel id => some (.remove id)
  | _ => none

def Mutation.deploymentEdit : Mutation → Option (Edit Deployment String)
  | .deploymentSet v => some (.replace v)
  | .deploymentDel id => some (.remove id)
  | _ => none

def Mutation.policyEdit : Mutation → Option (Edit PolicyPack String)
  | .policySet v => some (.replace v)
  | .policyDel id => some (.remove id)
  | _ => none

def Mutation.otaCampaignEdit : Mutation → Option (Edit OTACampaign String)
  | .otaCampaignSet v => some (.replace v)
  | _ => none

def Mutation.orgEdit : Mutation → Option (Edit Org String)
  | .orgSet v => some (.replace v)
  | .orgDel id => some (.remove id)
  | _ => none

def Mutation.alertEdit : Mutation → Option (Edit Alert String)
  | .alertSet v => some (.replace v)
  | _ => none

theorem updateAll_updateAll (ms : List Mutation) (h : ∀ m ∈ ms, m.appends = false) (st : State) :
    updateAll (updateAll st ms) ms = updateAll st ms := by
  have hupsert {α : Type} (key : α → String) (component : State → List α)
      (edit? : Mutation → Option α)
      (hstep : ∀ st m, m.appends = false → component (m.update st) =
        (edit? m).elim (component st) fun v => upsert key v (component st)) :
      component (updateAll (updateAll st ms) ms) = component (updateAll st ms) :=
    component_settled component edit? (fun xs v => upsert key v xs) hstep
      (upsertAll_upsertAll key) ms h st
  have hedit {α : Type} (key : α → String) (component : State → List α)
      (edit? : Mutation → Option (Edit α String))
      (hstep : ∀ st m, m.appends = false → component (m.update st) =
        (edit? m).elim (component st) (Edit.run key (component st))) :
      component (updateAll (updateAll st ms) ms) = component (updateAll st ms) :=
    component_settled component edit? (Edit.run key) hstep (editAll_editAll key) ms h st
  -- events are only ever appended, so no operation of such a log reaches them
  have hfixed {α : Type} (component : State → List α)
      (hstep : ∀ st (m : Mutation), m.appends = false → component (m.update st) = component st) :
      component (updateAll (updateAll st ms) ms) = component (updateAll st ms) :=
    component_settled component (fun _ => none) (fun xs (_ : Unit) => xs) hstep
      (by intro xs edits; simp) ms h st
  apply State.ext
  · refine hupsert Site.id State.sites Mutation.siteUpsert fun st m hm => ?_
    cases m <;> cases hm <;> rfl
  · refine hupsert Device.id State.devices Mutation.deviceUpsert fun st m hm => ?_
    cases m <;> cases hm <;> rfl
  · refine hupsert Twin.deviceID State.twins Mutation.twinUpsert fun st m hm => ?_
    cases m <;> cases hm <;> rfl
  · refine hedit Route.id State.routes Mutation.routeEdit fun st m hm => ?_
    cases m <;> cases hm <;> rfl
  · refine hedit Deployment.id State.deployments Mutation.deploymentEdit fun st m hm => ?_
    cases m <;> cases hm <;> rfl
  · refine hedit Alert.id State.alerts Mutation.alertEdit fun st m hm => ?_
    cases m <;> cases hm <;> rfl
  · refine hfixed State.events fun st m hm => ?_
    cases m <;> cases hm <;> rfl
  · refine hfixed State.seenEvents fun st m hm => ?_
    cases m <;> cases hm <;> rfl
  · refine hedit PolicyPack.id State.policyPacks Mutation.policyEdit fun st m hm => ?_
    cases m <;> cases hm <;> rfl
  · refine hedit Org.id State.orgs Mutation.orgEdit fun st m hm => ?_
    cases m <;> cases hm <;> rfl
  · refine hedit OTACampaign.id State.otaCampaigns Mutation.otaCampaignEdit fun st m hm => ?_
    cases m <;> cases hm <;> rfl

section

def decodeLine (codecs : Codecs) (line : Bytes) : Option Mutation :=
  (Op.unmarshal codecs line).bind (Op.mutation codecs)

def logged (codecs : Codecs) (wal : Option Bytes) : List Mutation :=
  (scan scanLimit (wal.getD [])).1.filterMap (decodeLine codecs)

variable {codecs : Codecs}

theorem decodeLine_op (m : Mutation) :
    decodeLine codecs ((m.op codecs).marshal codecs) = some m := by
  rw [decodeLine, Op.unmarshal_marshal (carried_op codecs m) codecs, bind_some, mutation_op]

theorem replayLine_decode (mem : Mem) (line : Bytes) (m : Mutation)
    (h : decodeLine codecs line = some m) : mem.replayLine codecs line = .ok (m.apply mem) := by
  obtain ⟨o, ho, hm⟩ := bind_eq_some_iff.mp h
  simp only [Mem.replayLine, ho, hm]

variable {mem mem' : Mem} {wal : Option Bytes}

theorem decodeLine_of_replayLine {line : Bytes}
    (h : mem.replayLine codecs line = .ok mem') : ∃ m, decodeLine codecs line = some m := by
  unfold Mem.replayLine at h
  split at h
  · cases h
  · rename_i o ho
    split at h
    · cases h
    · rename_i m hm
      exact ⟨m, by rw [decodeLine, ho, bind_some, hm]⟩

theorem foldlM_replayLine (lines : List Bytes)
    (h : lines.foldlM (Mem.replayLine codecs) mem = .ok mem') (start : Mem) :
    lines.foldlM (Mem.replayLine codecs) start =
      .ok (applyAll start (lines.filterMap (decodeLine codecs))) := by
  induction lines generalizing mem start with
  | nil => rfl
  | cons line lines ih =>
    rw [foldlM_cons] at h ⊢
    cases hline : mem.replayLine codecs line with
    | error err =>
      rw [hline] at h
      cases h
    | ok next =>
      rw [hline] at h
      obtain ⟨m, hm⟩ := decodeLine_of_replayLine hline
      rw [replayLine_decode start line m hm, filterMap_cons_some hm]
      exact ih h (m.apply start)

theorem scan_of_replay (h : replay codecs mem wal = .ok mem') :
    (scan scanLimit (wal.getD [])).2 = false ∧
      (scan scanLimit (wal.getD [])).1.foldlM (Mem.replayLine codecs) mem = .ok mem' := by
  rw [← replay_getD] at h
  simp only [replay, Lines.replay] at h
  cases hfold : (scan scanLimit (wal.getD [])).1.foldlM (Mem.replayLine codecs) mem with
  | error err =>
    rw [hfold] at h
    cases h
  | ok last =>
    rw [hfold] at h
    cases hfits : (scan scanLimit (wal.getD [])).2 with
    | true =>
      rw [hfits] at h
      cases h
    | false =>
      rw [hfits] at h
      cases h
      exact ⟨rfl, rfl⟩

theorem replay_logged (h : replay codecs mem wal = .ok mem')
    (start : Mem) : replay codecs start wal = .ok (applyAll start (logged codecs wal)) := by
  obtain ⟨hfits, hfold⟩ := scan_of_replay h
  rw [← replay_getD]
  simp only [replay, Lines.replay]
  rw [hfits, foldlM_replayLine _ hfold start]
  rfl

theorem logged_writeLine {s : Store} {m : Mutation}
    (hend : EndsLine (s.disk.wal.getD [])) (h : replay codecs mem s.disk.wal = .ok mem')
    (hfits : LineFits codecs m) :
    logged codecs (s.writeLine codecs (m.op codecs)).disk.wal =
      logged codecs s.disk.wal ++ [m] := by
  have hscan := scan_append scanLimit _ _ hend (scan_of_replay h).1
    ((carried_op codecs m).isLine codecs hfits)
  simp only [logged, writeLine, getD_some]
  rw [hscan, filterMap_append, filterMap_cons_some (decodeLine_op m), filterMap_nil]

end

section

/-- The files after a crash inside the compaction that the append of `m` starts:
the line of `m` and `writes` of the compaction's file writes are on disk. -/
def crashDisk (codecs : Codecs) (s : Store) (m : Mutation) (writes : Nat) : Disk :=
  ((compactWrites codecs s.state).take writes).foldl (fun disk write => write disk)
    (s.writeLine codecs (m.op codecs)).disk

/-- A store, and whether it has compacted its log since it was opened. -/
structure Tracked extends Nodra.Store where
  compacted : Bool := false

inductive TrackedStep (codecs : Codecs) (path : String) : Tracked → Tracked → Prop where
  | call {t : Tracked} {s' : Store} (request : Call) (h : t.toStore.call codecs request = .ok s')
      (hfits : ∀ m, t.toStore.plan request = some m → LineFits codecs m) :
      TrackedStep codecs path t
        { s' with compacted := t.compacted ||
            (t.toStore.plan request).isSome && decide (compactAt ≤ t.ops + 1) }
  | reopen {t : Tracked} {s' : Store} (h : openStore codecs path t.disk = .ok s') :
      TrackedStep codecs path t { s' with }

/-- The state in memory is what the log does to some state, and as long as the log
was not compacted it is the one the files rebuild. -/
structure Tracks (codecs : Codecs) (t : Tracked) : Prop where
  settled : t.disk.Settled
  replays : ∀ start, replay codecs start t.disk.wal = .ok (applyAll start (logged codecs t.disk.wal))
  base : ∃ st, t.state = updateAll st (logged codecs t.disk.wal)
  inSync : t.compacted = false → InSync codecs t.toStore

variable {codecs : Codecs} {path : String}

theorem tracks_of_open {disk : Disk} {s : Store} (hsettled : disk.Settled)
    (h : openStore codecs path disk = .ok s) : Tracks codecs { s with } := by
  have hsync := inSync_of_open hsettled h
  have hload := hsync.load
  rw [loadMem_of_settled hsync.settled] at hload
  cases hstate : readState codecs {} s.disk.snapshot with
  | error err =>
    rw [hstate] at hload
    cases hload
  | ok st =>
    rw [hstate] at hload
    have hreplay := replay_logged hload { state := st, seen := indexSeen st.seenEvents }
    refine ⟨hsync.settled, replay_logged hload, ⟨st, ?_⟩, fun _ => hsync⟩
    have hmem := Except.ok.inj (hload.symm.trans hreplay)
    exact (congrArg Mem.state hmem).trans (applyAll_state _ _)

variable {t : Tracked} {m : Mutation}

theorem Tracks.mutate_below (ht : Tracks codecs t)
    (hops : t.ops + 1 < compactAt) (hfits : LineFits codecs m) :
    Tracks codecs { t.toStore.mutate codecs m with compacted := t.compacted } := by
  have hwal := logged_writeLine ht.settled.endsLine (ht.replays {}) hfits
  obtain ⟨st, hst⟩ := ht.base
  rw [Store.mutate_below codecs t.toStore m hops]
  refine ⟨settled_writeLine ht.settled _, fun start => ?_, ⟨st, ?_⟩, fun hclean => ?_⟩
  · exact replay_logged (replay_writeLine ht.settled.endsLine (ht.replays start) hfits) start
  · change m.update t.state = _
    rw [hwal, updateAll_concat, ← hst]
  · have hsync := ht.inSync hclean
    exact ⟨settled_writeLine hsync.settled _, loadMem_writeLine hsync.settled hsync.load hfits⟩

theorem tracks_compacted (t : Tracked) (m : Mutation) (hops : compactAt ≤ t.ops + 1) :
    Tracks codecs { t.toStore.mutate codecs m with compacted := true } := by
  have hdisk := disk_mutate_compacted codecs t.toStore m hops
  refine ⟨?_, fun start => ?_, ⟨(t.toStore.mutate codecs m).state, ?_⟩, nofun⟩
  · exact hdisk ▸ settled_compacted _ _
  · simp only [hdisk]
    rfl
  · simp only [hdisk]
    rfl

theorem TrackedStep.tracks {t' : Tracked} (h : TrackedStep codecs path t t')
    (ht : Tracks codecs t) : Tracks codecs t' := by
  cases h with
  | reopen hopen => exact tracks_of_open ht.settled hopen
  | call request hcall hfits =>
    rw [call_ok hcall]
    cases hplan : t.toStore.plan request with
    | none => simpa using ht
    | some m =>
      by_cases hops : compactAt ≤ t.ops + 1
      · simpa [hops] using tracks_compacted t m hops
      · simpa [hops] using ht.mutate_below (by omega) (hfits m hplan)

theorem loadMem_between_writes (ht : Tracks codecs t) (hfits : LineFits codecs m) :
    loadMem codecs (t.toStore.crashDisk codecs m 1) =
      .ok (applyAll { state := t.state, seen := indexSeen t.state.seenEvents }
        (logged codecs t.disk.wal ++ [m])) := by
  have hsettled : (t.toStore.crashDisk codecs m 1).Settled := ⟨nofun, endsLine_append_newline _ _⟩
  have hreplay := replay_writeLine ht.settled.endsLine
    (ht.replays { state := t.state, seen := indexSeen t.state.seenEvents }) hfits
  have hsnapshot : (t.toStore.crashDisk codecs m 1).snapshot =
      some (codecs.marshalState t.state) := rfl
  rw [loadMem_of_settled hsettled, hsnapshot, readState_marshalState]
  simp only [applyAll, foldl_append]
  exact hreplay

theorem loadMem_after_writes (t : Tracked) (m : Mutation) (writes : Nat) (h : 2 ≤ writes) :
    loadMem codecs (t.toStore.crashDisk codecs m writes) =
      .ok { state := t.state, seen := indexSeen t.state.seenEvents } := by
  have hall : (compactWrites codecs t.state).take writes = compactWrites codecs t.state :=
    take_of_length_le h
  have hdisk : t.toStore.crashDisk codecs m writes =
      { t.disk with snapshot := some (codecs.marshalState t.state), wal := some [] } := by
    rw [crashDisk, hall]
    rfl
  rw [hdisk, loadMem_of_settled (settled_compacted _ _)]
  simp only [readState_marshalState]
  rfl

/-- A crash that opening the store makes up for: before the first write, the log has
not been compacted since the store was opened; between the writes, no operation
of the log appends. -/
structure CrashSafe (codecs : Codecs) (t : Tracked) (writes : Nat) : Prop where
  beforeSnapshot : writes = 0 → t.compacted = false
  betweenWrites : writes = 1 → ∀ m ∈ logged codecs t.disk.wal, m.appends = false

/-- Opening the files of the crash gives the state in force when the compaction
began, with or without the operation in flight. -/
def Recovers (codecs : Codecs) (path : String) (s : Store) (m : Mutation) (writes : Nat) : Prop :=
  ∃ s', openStore codecs path (s.crashDisk codecs m writes) = .ok s' ∧
    (s'.state = s.state ∨ s'.state = m.update s.state)

theorem Tracks.recovers (ht : Tracks codecs t) (hpath : path ≠ "")
    (hfits : LineFits codecs m) {writes : Nat} (hsafe : CrashSafe codecs t writes) :
    Recovers codecs path t.toStore m writes := by
  have hopen {mem : Mem} (hload : loadMem codecs (t.toStore.crashDisk codecs m writes) = .ok mem)
      (hstate : mem.state = t.state ∨ mem.state = m.update t.state) :
      Recovers codecs path t.toStore m writes := by
    obtain ⟨s', hs', rfl⟩ := openStore_of_loadMem codecs hpath hload
    exact ⟨s', hs', hstate⟩
  match writes with
  | 0 =>
    have hsync := ht.inSync (hsafe.beforeSnapshot rfl)
    exact hopen (loadMem_writeLine hsync.settled hsync.load hfits) (.inr rfl)
  | 1 =>
    refine hopen (loadMem_between_writes ht hfits) (.inr ?_)
    obtain ⟨st, hst⟩ := ht.base
    rw [applyAll_state, updateAll_concat]
    simp only [hst]
    rw [updateAll_updateAll _ (hsafe.betweenWrites rfl)]
  | writes + 2 => exact hopen (loadMem_after_writes t m (writes + 2) (by omega)) (.inl rfl)

/-- Compaction and crashes: on a store opened from a settled directory, after any run
of calls and reopenings, a safe crash inside the compaction that a mutation
starts is recovered by opening the store. -/
theorem crash_recovered_of_run (codecs : Codecs) (path : String) (disk : Disk) (s₀ : Store)
    (t : Tracked) (m : Mutation) (writes : Nat)
    (hsettled : disk.Settled) (hopen : openStore codecs path disk = .ok s₀)
    (hrun : ReflTransGen (TrackedStep codecs path) { s₀ with } t)
    (hfits : LineFits codecs m) (hsafe : CrashSafe codecs t writes) :
    Recovers codecs path t.toStore m writes := by
  have ht := Run.invariant (fun _ _ hstep => hstep.tracks) hrun (tracks_of_open hsettled hopen)
  exact ht.recovers (openStore_ok hopen).1 hfits hsafe

def freshTracked : Tracked := { freshStore with }

theorem run_replicate (codecs : Codecs) (request : Call) (m : Mutation)
    (hcall : ∀ s : Store, s.call codecs request = .ok (s.mutate codecs m))
    (hplan : ∀ s : Store, s.plan request = some m) (hfits : LineFits codecs m)
    (n : Nat) (h : n < compactAt) :
    ∃ t, ReflTransGen (TrackedStep codecs "state.json") freshTracked t ∧ t.ops = n ∧
      t.state = updateAll {} (List.replicate n m) ∧
      logged codecs t.disk.wal = List.replicate n m := by
  induction n with
  | zero => exact ⟨freshTracked, .refl, rfl, rfl, rfl⟩
  | succ n ih =>
    obtain ⟨t, hrun, hops, hstate, hlogged⟩ := ih (by omega)
    have ht := Run.invariant (fun _ _ hstep => hstep.tracks) hrun
      (tracks_of_open emptyDisk_settled (openStore_empty codecs))
    refine ⟨_, hrun.tail (.call request (hcall t.toStore) ?_), ?_, ?_, ?_⟩
    · intro m' hm'
      cases (hplan t.toStore).symm.trans hm'
      exact hfits
    · rw [Store.mutate_below codecs t.toStore m (by omega)]
      simp only [writeLine, hops]
    · change m.update t.state = _
      rw [replicate_succ', updateAll_concat, hstate]
    · rw [Store.mutate_below codecs t.toStore m (by omega)]
      rw [replicate_succ', ← hlogged]
      exact logged_writeLine ht.settled.endsLine (ht.replays {}) hfits

private theorem lineFits_setTwin : LineFits numberedCodecs (.twinSet {}) := by
  have hdata : numberedCodecs.twin.marshal {} = ascii "null" :=
    Codec.marshal_ofCountable_zero ({} : Twin)
  simp only [LineFits, Op.marshal, Op.fields, Mutation.op, hdata]
  decide +kernel

/-- A twin set 2047 times, and a crash between the writes of the compaction that the
next call starts. -/
theorem crash_recovered_after_setTwin :
    ∃ t : Tracked, compactAt ≤ t.ops + 1 ∧
      Recovers numberedCodecs "state.json" t.toStore (.twinSet {}) 1 := by
  obtain ⟨t, hrun, hops, -, hlogged⟩ := run_replicate numberedCodecs (.setTwin {}) _
    (fun _ => rfl) (fun _ => rfl) lineFits_setTwin 2047 (by decide)
  refine ⟨t, by rw [hops]; decide, ?_⟩
  refine crash_recovered_of_run numberedCodecs "state.json" {} freshStore t (.twinSet {}) 1
    emptyDisk_settled (openStore_empty _) hrun lineFits_setTwin ⟨nofun, fun _ m hm => ?_⟩
  rw [hlogged] at hm
  rw [eq_of_mem_replicate hm]
  rfl

theorem sites_replicate_siteAdd (st : State) (v : Site) (n : Nat) :
    (updateAll st (List.replicate n (.siteAdd v))).sites.length = st.sites.length + n := by
  induction n with
  | zero => rfl
  | succ n ih =>
    rw [replicate_succ', updateAll_concat]
    simp only [Mutation.update, length_append, length_singleton, ih]
    omega

/-- A crash between the two writes of the compaction that the 2048th added site starts:
opening the store gives every one of the 2047 sites a second time. -/
theorem sites_doubled_by_crash :
    openStore numberedCodecs "state.json" {} = .ok freshStore ∧
      ∃ t, ReflTransGen (TrackedStep numberedCodecs "state.json") freshTracked t ∧
        compactAt ≤ t.ops + 1 ∧ t.state.sites.length = 2047 ∧
        (∃ s', openStore numberedCodecs "state.json"
            (t.toStore.crashDisk numberedCodecs (.siteAdd {}) 1) = .ok s' ∧
          s'.state.sites.length = 4095) ∧
        ¬ Recovers numberedCodecs "state.json" t.toStore (.siteAdd {}) 1 := by
  obtain ⟨t, hrun, hops, hstate, hlogged⟩ := run_replicate numberedCodecs (.addSite {}) _
    (fun _ => rfl) (fun _ => rfl) lineFits_addSite 2047 (by decide)
  have ht := Run.invariant (fun _ _ hstep => hstep.tracks) hrun
    (tracks_of_open emptyDisk_settled (openStore_empty _))
  have hsites : t.state.sites.length = 2047 := by
    rw [hstate, sites_replicate_siteAdd]
    rfl
  have hpath : "state.json" ≠ "" := by decide
  obtain ⟨s', hs', hmem⟩ := openStore_of_loadMem numberedCodecs hpath
    (loadMem_between_writes ht lineFits_addSite)
  have hdoubled : s'.state.sites.length = 4095 := by
    rw [hmem, hlogged, ← replicate_succ', applyAll_state, sites_replicate_siteAdd]
    simp only [hsites]
  refine ⟨openStore_empty _, t, hrun, by rw [hops]; decide, hsites, ⟨s', hs', hdoubled⟩, ?_⟩
  rintro ⟨s'', hs'', hrecovered⟩
  cases hs'.symm.trans hs''
  rcases hrecovered with hsame | hnext
  · rw [hsame, hsites] at hdoubled
    cases hdoubled
  · rw [hnext] at hdoubled
    simp [Mutation.update, hsites] at hdoubled

end

end Nodra.Store
