import Nodra.Lib.Run
import Nodra.Store.Model

/-! The files and the memory of the store agree: opening the directory again
after a run of calls gives back the state and the index of seen events, as long
as no append compacts the log. -/
namespace Nodra.Store
open Lines JsonText Model Relation Std

/-- A directory that opens without reading a v0.1 file, and whose log ends in a
complete line. -/
structure Disk.Settled (disk : Disk) : Prop where
  noMigration : disk.snapshot = none → disk.legacy = none ∨ disk.legacy = some []
  endsLine : EndsLine (disk.wal.getD [])

variable {codecs : Codecs} {disk : Disk} {path : String} {s : Store} {mem : Mem} {m : Mutation} {s' : Store}

theorem loadState_of_settled (h : disk.Settled) :
    loadState codecs disk = readState codecs {} disk.snapshot := by
  unfold loadState
  cases hsnapshot : disk.snapshot with
  | some text => rfl
  | none =>
    rcases h.noMigration hsnapshot with hlegacy | hlegacy <;> rw [hlegacy] <;> rfl

theorem replay_getD (codecs : Codecs) (mem : Mem) (wal : Option Bytes) :
    replay codecs mem (some (wal.getD [])) = replay codecs mem wal := by
  cases wal <;> rfl

theorem loadMem_of_settled (h : disk.Settled) :
    loadMem codecs disk =
      match readState codecs {} disk.snapshot with
      | .error err => .error err
      | .ok st => replay codecs { state := st, seen := indexSeen st.seenEvents } disk.wal := by
  show (match loadState codecs disk with
    | .error err => Except.error err
    | .ok st => replay codecs { state := st, seen := indexSeen st.seenEvents } disk.wal) = _
  rw [loadState_of_settled h]

theorem openStore_ok (h : openStore codecs path disk = .ok s) :
    path ≠ "" ∧ loadMem codecs disk = .ok s.toMem ∧
      s.disk = { disk with legacy := none, wal := some (disk.wal.getD []) } ∧ s.ops = 0 := by
  unfold openStore at h
  split at h
  · cases h
  · rename_i hpath
    split at h
    · cases h
    · rename_i mem hload
      cases h
      exact ⟨hpath, hload, rfl, rfl⟩

theorem openStore_of_loadMem (codecs : Codecs) (hpath : path ≠ "") (h : loadMem codecs disk = .ok mem) :
    ∃ s, openStore codecs path disk = .ok s ∧ s.toMem = mem := by
  unfold openStore
  rw [if_neg hpath, h]
  exact ⟨_, rfl, rfl⟩

structure InSync (codecs : Codecs) (s : Store) : Prop where
  settled : s.disk.Settled
  load : loadMem codecs s.disk = .ok s.toMem

theorem inSync_of_open
    (hsettled : disk.Settled) (h : openStore codecs path disk = .ok s) : InSync codecs s := by
  obtain ⟨-, hload, hdisk, -⟩ := openStore_ok h
  have hsettled' : s.disk.Settled := by
    rw [hdisk]
    exact ⟨fun _ => .inl rfl, hsettled.endsLine⟩
  refine ⟨hsettled', ?_⟩
  rw [loadMem_of_settled hsettled] at hload
  rw [loadMem_of_settled hsettled', hdisk]
  simp only [replay_getD]
  exact hload

theorem replayLine_op (codecs : Codecs) (mem : Mem) (m : Mutation) :
    mem.replayLine codecs ((m.op codecs).marshal codecs) = .ok (m.apply mem) := by
  unfold Mem.replayLine
  rw [Op.unmarshal_marshal (carried_op codecs m) codecs]
  simp only [mutation_op]

def LineFits (codecs : Codecs) (m : Mutation) : Prop :=
  ((m.op codecs).marshal codecs).length < scanLimit

theorem replay_writeLine {mem' : Mem} {wal : Option Bytes}
    (hend : EndsLine (wal.getD [])) (hreplay : replay codecs mem wal = .ok mem')
    (hfits : LineFits codecs m) :
    replay codecs mem (some (wal.getD [] ++ ((m.op codecs).marshal codecs ++ [newline]))) =
      .ok (m.apply mem') := by
  rw [← replay_getD] at hreplay
  exact replay_append hend hreplay ((carried_op codecs m).isLine codecs hfits)
    (replayLine_op codecs mem' m)

theorem settled_writeLine (h : s.disk.Settled) (o : Op) :
    (s.writeLine codecs o).disk.Settled :=
  ⟨h.noMigration, endsLine_append_newline _ _⟩

theorem loadMem_writeLine (hsettled : s.disk.Settled) (hload : loadMem codecs s.disk = .ok mem)
    (hfits : LineFits codecs m) :
    loadMem codecs (s.writeLine codecs (m.op codecs)).disk = .ok (m.apply mem) := by
  rw [loadMem_of_settled hsettled] at hload
  rw [loadMem_of_settled (settled_writeLine hsettled _)]
  cases hstate : readState codecs {} s.disk.snapshot with
  | error err =>
    rw [hstate] at hload
    cases hload
  | ok st =>
    rw [hstate] at hload
    simp only [writeLine, hstate]
    exact replay_writeLine hsettled.endsLine hload hfits

theorem mutate_below (codecs : Codecs) (s : Store) (m : Mutation) (h : s.ops + 1 < compactAt) :
    s.mutate codecs m = { s.writeLine codecs (m.op codecs) with toMem := m.apply s.toMem } := by
  have hops : ¬ (s.writeLine codecs (m.op codecs)).ops ≥ compactAt := by
    simp only [writeLine]
    omega
  simp only [mutate, appendLocked, if_neg hops]

/-- A call that keeps the directory in step: if it makes a mutation, the append
does not reach the compaction threshold and its line can be read back. -/
def InStep (codecs : Codecs) (s : Store) (request : Call) : Prop :=
  ∀ m, s.plan request = some m → s.ops + 1 < compactAt ∧ LineFits codecs m

inductive Step (codecs : Codecs) (path : String) : Store → Store → Prop where
  | call {s s' : Store} (request : Call) (h : s.call codecs request = .ok s')
      (hstep : InStep codecs s request) : Step codecs path s s'
  | reopen {s s' : Store} (h : openStore codecs path s.disk = .ok s') : Step codecs path s s'

theorem Step.inSync (h : Step codecs path s s') (hs : InSync codecs s) : InSync codecs s' := by
  cases h with
  | reopen hopen => exact inSync_of_open hs.settled hopen
  | call request hcall hstep =>
    rw [call_ok hcall]
    cases hplan : s.plan request with
    | none => exact hs
    | some m =>
      obtain ⟨hops, hfits⟩ := hstep m hplan
      rw [Option.elim_some, mutate_below codecs s m hops]
      exact ⟨settled_writeLine hs.settled _, loadMem_writeLine hs.settled hs.load hfits⟩

/-- Opening the directory again gives back the state and the seen event ids. -/
def Reopens (codecs : Codecs) (path : String) (s : Store) : Prop :=
  ∃ s', openStore codecs path s.disk = .ok s' ∧ s'.state = s.state ∧ s'.seen = s.seen

/-- Durability: on a store opened from a settled directory, in a run of calls that
keep in step and of reopenings, every state is the one a fresh open rebuilds. -/
theorem memory_restored_of_run (codecs : Codecs) (path : String) (disk : Disk) (s₀ s : Store)
    (hsettled : disk.Settled) (hopen : openStore codecs path disk = .ok s₀)
    (hrun : ReflTransGen (Step codecs path) s₀ s) : Reopens codecs path s := by
  have hsync := Run.invariant (fun _ _ hstep => hstep.inSync) hrun (inSync_of_open hsettled hopen)
  obtain ⟨s', hs', hmem⟩ := openStore_of_loadMem codecs (openStore_ok hopen).1 hsync.load
  exact ⟨s', hs', by rw [hmem], by rw [hmem]⟩

noncomputable def numberedState : Codec State := .ofCountable {}

noncomputable def numberedCodecs : Codecs where
  site := .ofCountable {}
  device := .ofCountable {}
  twin := .ofCountable {}
  route := .ofCountable {}
  deployment := .ofCountable {}
  policyPack := .ofCountable {}
  otaCampaign := .ofCountable {}
  org := .ofCountable {}
  alert := .ofCountable {}
  event := .ofCountable {}
  string := .ofCountable ""
  marshalState := numberedState.marshal
  unmarshalState := numberedState.unmarshal
  unmarshalState_marshalState := numberedState.unmarshal_marshal
  marshalState_ne_nil := fun state => (numberedState.isCompact_marshal state).ne_nil

def freshStore : Store := { disk := { wal := some [] } }

theorem openStore_empty (codecs : Codecs) : openStore codecs "state.json" {} = .ok freshStore := by
  simp only [openStore, loadMem, loadState, readState, replay]
  rfl

theorem emptyDisk_settled : Disk.Settled {} := ⟨fun _ => .inl rfl, .inl rfl⟩

theorem lineFits_addSite : LineFits numberedCodecs (.siteAdd {}) := by
  have hdata : numberedCodecs.site.marshal {} = ascii "null" :=
    Codec.marshal_ofCountable_zero ({} : Site)
  simp only [LineFits, Op.marshal, Op.fields, Mutation.op, hdata]
  decide +kernel

theorem memory_restored_after_addSite :
    Reopens numberedCodecs "state.json" (freshStore.mutate numberedCodecs (.siteAdd {})) :=
  memory_restored_of_run numberedCodecs "state.json" {} freshStore _ emptyDisk_settled
    (openStore_empty _)
    (.single (.call (.addSite {}) rfl (by
      intro m hm
      cases hm
      exact ⟨by decide, lineFits_addSite⟩)))

def callAll (codecs : Codecs) (s : Store) (calls : List Call) : Except Error Store :=
  calls.foldlM (fun s request => s.call codecs request) s

theorem callAll_concat {calls : List Call} (request : Call) (h : s.callAll codecs calls = .ok s') :
    s.callAll codecs (calls ++ [request]) = s'.call codecs request := by
  unfold callAll at h ⊢
  rw [List.foldlM_append, h]
  exact bind_pure (s'.call codecs request)

theorem callAll_replicate_addSite (codecs : Codecs) (v : Site) (n : Nat) (h : n < compactAt) :
    ∃ s, freshStore.callAll codecs (List.replicate n (.addSite v)) = .ok s ∧
      s.ops = n ∧ s.state.sites.length = n := by
  induction n with
  | zero => exact ⟨freshStore, rfl, rfl, rfl⟩
  | succ n ih =>
    obtain ⟨s, hcalls, hops, hsites⟩ := ih (by omega)
    refine ⟨s.mutate codecs (.siteAdd v), ?_, ?_, ?_⟩
    · rw [List.replicate_succ', callAll_concat _ hcalls]
      rfl
    · rw [mutate_below codecs s _ (by omega)]
      simp only [writeLine, hops]
    · rw [mutate_below codecs s _ (by omega)]
      simp [Mutation.apply, Mutation.update, hsites]

theorem readState_marshalState (codecs : Codecs) (st st' : State) :
    readState codecs st (some (codecs.marshalState st')) = .ok st' := by
  simp only [readState, if_neg (codecs.marshalState_ne_nil st'), codecs.unmarshalState_marshalState]

theorem disk_mutate_compacted (codecs : Codecs) (s : Store) (m : Mutation) (hops : compactAt ≤ s.ops + 1) :
    (s.mutate codecs m).disk =
      { s.disk with snapshot := some (codecs.marshalState s.state), wal := some [] } := by
  have hcompact : (s.writeLine codecs (m.op codecs)).ops ≥ compactAt := hops
  simp only [mutate, appendLocked, if_pos hcompact]
  rfl

theorem settled_compacted (disk : Disk) (snapshot : Bytes) :
    Disk.Settled { disk with snapshot := some snapshot, wal := some [] } :=
  ⟨nofun, .inl rfl⟩

theorem loadMem_compacted (codecs : Codecs) (s : Store) (m : Mutation) (hops : compactAt ≤ s.ops + 1) :
    loadMem codecs (s.mutate codecs m).disk =
      .ok { state := s.state, seen := indexSeen s.state.seenEvents } := by
  rw [disk_mutate_compacted codecs s m hops, loadMem_of_settled (settled_compacted _ _)]
  simp only [readState_marshalState]
  rfl

/-- The 2048th addition of a site compacts the log before it reaches the state: it
returns nil, and a fresh open does not have the site. -/
theorem site_lost_at_compaction :
    openStore numberedCodecs "state.json" {} = .ok freshStore ∧
      ∃ s, freshStore.callAll numberedCodecs (List.replicate 2048 (.addSite {})) = .ok s ∧
        ¬ Reopens numberedCodecs "state.json" s := by
  obtain ⟨s, hcalls, hops, hsites⟩ :=
    callAll_replicate_addSite numberedCodecs {} 2047 (by decide)
  refine ⟨openStore_empty _, s.mutate numberedCodecs (.siteAdd {}), ?_, ?_⟩
  · rw [List.replicate_succ', callAll_concat _ hcalls]
    rfl
  · rintro ⟨s', hopen, hstate, -⟩
    obtain ⟨-, hload, -, -⟩ := openStore_ok hopen
    rw [loadMem_compacted _ _ _ (by rw [hops]; decide)] at hload
    have hlost : s'.state.sites.length = 2047 := by
      rw [← hsites, ← Except.ok.inj hload]
    rw [hstate] at hlost
    simp [mutate, Mutation.apply, Mutation.update, hsites] at hlost

end Nodra.Store
