import Nodra.Lib.Run

/-! Threads over a shared state, one atomic step at a time.  A step is a function of
a choice (the results the environment gives it), may end its thread and may fork
others.  Invariants follow Owicki and Gries: an assertion for each thread, which
its own steps establish and which no step of another thread breaks. -/
namespace Nodra.Interleave
open Relation List

structure Config (σ τ : Type) where
  shared : σ
  pool : Multiset τ

/-- `allowed` restricts the runs: it sees the choice, the shared state, the thread that
moves and the other threads. -/
structure System (σ τ γ : Type) where
  starts : τ → Prop
  next : γ → σ → τ → σ × List τ
  allowed : γ → σ → τ → Multiset τ → Prop := fun _ _ _ _ => True

variable {σ τ γ : Type} (sys : System σ τ γ)

inductive System.Step : Config σ τ → Config σ τ → Prop where
  | start {s : σ} {pool : Multiset τ} (t : τ) (h : sys.starts t) : Step ⟨s, pool⟩ ⟨s, t ::ₘ pool⟩
  | move {s : σ} {t : τ} {rest : Multiset τ} (choice : γ) (h : sys.allowed choice s t rest) :
      Step ⟨s, t ::ₘ rest⟩ ⟨(sys.next choice s t).1, ↑(sys.next choice s t).2 + rest⟩

def System.Run : Config σ τ → Config σ τ → Prop := ReflTransGen sys.Step

section

variable {sys} {s s' : σ} {t t' : τ} {rest : Multiset τ} {c : Config σ τ}

theorem System.Run.move (choice : γ) (h : sys.allowed choice s t rest)
    (hnext : sys.next choice s t = (s', [t'])) (hrun : sys.Run ⟨s', t' ::ₘ rest⟩ c) :
    sys.Run ⟨s, t ::ₘ rest⟩ c := by
  refine ReflTransGen.head (.move choice h) ?_
  rw [hnext]
  exact hrun

theorem System.Run.last (choice : γ) (h : sys.allowed choice s t rest)
    (hnext : sys.next choice s t = (s', [])) : sys.Run ⟨s, t ::ₘ rest⟩ ⟨s', rest⟩ := by
  have hstep := System.Step.move choice h
  rw [hnext, Multiset.coe_nil, Multiset.zero_add] at hstep
  exact .single hstep

end

/-- A proof outline: an invariant of the shared state and an assertion for each
thread. -/
structure System.Outline (inv : σ → Prop) (asserts : σ → τ → Prop) : Prop where
  starts : ∀ s t, inv s → sys.starts t → asserts s t
  inv_next : ∀ choice s t rest, sys.allowed choice s t rest → inv s → asserts s t →
    inv (sys.next choice s t).1
  asserts_next : ∀ choice s t rest, sys.allowed choice s t rest → inv s → asserts s t →
    ∀ t' ∈ (sys.next choice s t).2, asserts (sys.next choice s t).1 t'
  stable : ∀ choice s t rest, sys.allowed choice s t rest → inv s → asserts s t →
    ∀ u ∈ rest, asserts s u → asserts (sys.next choice s t).1 u

variable {sys} {inv : σ → Prop} {asserts : σ → τ → Prop}

def Config.Meets (inv : σ → Prop) (asserts : σ → τ → Prop) (c : Config σ τ) : Prop :=
  inv c.shared ∧ ∀ t ∈ c.pool, asserts c.shared t

theorem System.Outline.step (outline : sys.Outline inv asserts) {c c' : Config σ τ}
    (h : sys.Step c c') (hc : c.Meets inv asserts) : c'.Meets inv asserts := by
  cases h with
  | start t hstart =>
    refine ⟨hc.1, fun u hu => ?_⟩
    rcases Multiset.mem_cons.mp hu with rfl | hu
    · exact outline.starts _ _ hc.1 hstart
    · exact hc.2 u hu
  | @move s t rest choice hallowed =>
    have ht := hc.2 t (Multiset.mem_cons_self t rest)
    refine ⟨outline.inv_next choice s t rest hallowed hc.1 ht, fun u hu => ?_⟩
    rcases Multiset.mem_add.mp hu with hu | hu
    · exact outline.asserts_next choice s t rest hallowed hc.1 ht u (Multiset.mem_coe.mp hu)
    · exact outline.stable choice s t rest hallowed hc.1 ht u hu
        (hc.2 u (Multiset.mem_cons_of_mem hu))

theorem System.Outline.run (outline : sys.Outline inv asserts) {c c' : Config σ τ}
    (h : sys.Run c c') (hc : c.Meets inv asserts) : c'.Meets inv asserts :=
  Run.invariant (fun c c' (hstep : sys.Step c c') => outline.step hstep) h hc

section

variable {β : Type} {view : σ → Option β} {R : β → β → Prop}

/-- A system beside an observer, who writes down what there is to see after every step. -/
def System.watch (sys : System σ τ γ) (view : σ → Option β) : System (σ × List β) τ γ where
  starts := sys.starts
  next := fun choice s t =>
    (((sys.next choice s.1 t).1, s.2 ++ (view (sys.next choice s.1 t).1).toList),
      (sys.next choice s.1 t).2)
  allowed := fun choice s t rest => sys.allowed choice s.1 t rest

/-- One step keeps what is seen, or moves it along the relation. -/
def Moves (R : β → β → Prop) (seen seen' : Option β) : Prop :=
  seen' = seen ∨ ∃ v', seen' = some v' ∧ ∀ v, seen = some v → R v v'

theorem isChain_append_of_moves (hrefl : ∀ v, R v v) {values : List β} {seen seen' : Option β}
    (hchain : values.IsChain R) (hlast : values.getLast? = seen) (h : Moves R seen seen') :
    (values ++ seen'.toList).IsChain R ∧ (values ++ seen'.toList).getLast? = seen' := by
  cases seen' with
  | none =>
    obtain rfl : none = seen := by
      rcases h with h | ⟨v', h, -⟩
      · exact h
      · cases h
    rw [Option.toList_none, append_nil]
    exact ⟨hchain, hlast⟩
  | some v' =>
    have hR : ∀ v ∈ values.getLast?, R v v' := by
      rintro v hv
      rw [hlast] at hv
      rcases h with h | ⟨_, ⟨⟩, h⟩
      · cases h.trans hv
        exact hrefl v'
      · exact h v hv
    simpa [isChain_append] using ⟨hchain, hR⟩

theorem System.chain_watch (hrefl : ∀ v, R v v)
    (hstep : ∀ choice s t rest, sys.allowed choice s t rest →
      Moves R (view s) (view (sys.next choice s t).1))
    {s : σ} {pool : Multiset τ} {c : Config (σ × List β) τ}
    (hrun : (sys.watch view).Run ⟨(s, (view s).toList), pool⟩ c) : c.shared.2.IsChain R := by
  have houtline : (sys.watch view).Outline
      (fun s => s.2.IsChain R ∧ s.2.getLast? = view s.1) (fun _ _ => True) :=
    { starts := fun _ _ _ _ => trivial
      inv_next := fun choice s t rest hallowed hs _ =>
        isChain_append_of_moves hrefl hs.1 hs.2 (hstep choice s.1 t rest hallowed)
      asserts_next := fun _ _ _ _ _ _ _ _ _ => trivial
      stable := fun _ _ _ _ _ _ _ _ _ _ => trivial }
  have hstart : ((view s).toList).IsChain R ∧ ((view s).toList).getLast? = view s := by
    cases view s <;> simp
  exact (houtline.run hrun ⟨hstart, fun _ _ => trivial⟩).1.1

end

/-- A move of a schedule: a new thread, or a step of the thread at a position. -/
inductive Move (τ γ : Type) where
  | start (t : τ)
  | move (index : Nat) (choice : γ)

def exec (next : γ → σ → τ → σ × List τ) (c : σ × List τ) : Move τ γ → σ × List τ
  | .start t => (c.1, t :: c.2)
  | .move index choice =>
    match c.2[index]? with
    | none => c
    | some t => ((next choice c.1 t).1, (next choice c.1 t).2 ++ c.2.eraseIdx index)

theorem coe_eq_cons_eraseIdx {pool : List τ} {index : Nat} {t : τ} (h : pool[index]? = some t) :
    (pool : Multiset τ) = t ::ₘ (pool.eraseIdx index : Multiset τ) := by
  obtain ⟨hlt, rfl⟩ := List.getElem?_eq_some_iff.mp h
  exact Multiset.coe_eq_coe.mpr (getElem_cons_eraseIdx_perm hlt).symm

/-- Every move of the schedule is one the system permits where it is made. -/
def System.Permits (sys : System σ τ γ) : σ × List τ → List (Move τ γ) → Prop
  | _, [] => True
  | c, .start t :: moves => sys.starts t ∧ sys.Permits (exec sys.next c (.start t)) moves
  | c, .move index choice :: moves =>
    (∀ t, c.2[index]? = some t → sys.allowed choice c.1 t ↑(c.2.eraseIdx index)) ∧
      sys.Permits (exec sys.next c (.move index choice)) moves

theorem System.permits_of_starts (sys : System σ τ γ)
    (hfree : ∀ choice s t rest, sys.allowed choice s t rest) (moves : List (Move τ γ))
    (hstarts : ∀ t, .start t ∈ moves → sys.starts t) (c : σ × List τ) : sys.Permits c moves := by
  induction moves generalizing c with
  | nil => trivial
  | cons move moves ih =>
    have hrest : ∀ t, .start t ∈ moves → sys.starts t :=
      fun t ht => hstarts t (mem_cons_of_mem _ ht)
    cases move with
    | start t => exact ⟨hstarts t mem_cons_self, ih hrest _⟩
    | move index choice => exact ⟨fun _ _ => hfree _ _ _ _, ih hrest _⟩

/-- Executes a schedule, and checks each move where it is made. -/
def checks (starts : τ → Bool) (allowed : γ → σ → τ → List τ → Bool) (next : γ → σ → τ → σ × List τ) :
    σ × List τ → List (Move τ γ) → Bool
  | _, [] => true
  | c, .start t :: moves => starts t && checks starts allowed next (exec next c (.start t)) moves
  | c, .move index choice :: moves =>
    (c.2[index]?.all fun t => allowed choice c.1 t (c.2.eraseIdx index)) &&
      checks starts allowed next (exec next c (.move index choice)) moves

theorem System.permits_of_checks {starts : τ → Bool} {allowed : γ → σ → τ → List τ → Bool}
    (sys : System σ τ γ) (hstarts : ∀ t, starts t → sys.starts t)
    (hallowed : ∀ choice s t rest, allowed choice s t rest → sys.allowed choice s t ↑rest)
    (moves : List (Move τ γ)) (c : σ × List τ) (h : checks starts allowed sys.next c moves) :
    sys.Permits c moves := by
  induction moves generalizing c with
  | nil => trivial
  | cons move moves ih =>
    cases move with
    | start t =>
      simp only [checks, Bool.and_eq_true] at h
      exact ⟨hstarts t h.1, ih _ h.2⟩
    | move index choice =>
      simp only [checks, Bool.and_eq_true] at h
      refine ⟨fun t ht => hallowed _ _ _ _ ?_, ih _ h.2⟩
      rw [ht] at h
      exact h.1

theorem System.run_of_exec (sys : System σ τ γ) (moves : List (Move τ γ)) (c : σ × List τ)
    (h : sys.Permits c moves) :
    sys.Run ⟨c.1, c.2⟩ ⟨(moves.foldl (exec sys.next) c).1, (moves.foldl (exec sys.next) c).2⟩ := by
  induction moves generalizing c with
  | nil => exact .refl
  | cons move moves ih =>
    cases move with
    | start t => exact .head (.start t h.1) (ih _ h.2)
    | move index choice =>
      refine ReflTransGen.trans ?_ (ih _ h.2)
      cases hget : c.2[index]? with
      | none =>
        simp only [exec, hget]
        exact .refl
      | some t =>
        simp only [exec, hget, ← Multiset.coe_add]
        rw [coe_eq_cons_eraseIdx hget]
        exact .single (.move choice (h.1 t hget))

theorem System.run_of_starts (sys : System σ τ γ)
    (hfree : ∀ choice s t rest, sys.allowed choice s t rest) (moves : List (Move τ γ))
    (hstarts : ∀ t, .start t ∈ moves → sys.starts t) (c : σ × List τ) :
    sys.Run ⟨c.1, c.2⟩ ⟨(moves.foldl (exec sys.next) c).1, (moves.foldl (exec sys.next) c).2⟩ :=
  sys.run_of_exec moves c (sys.permits_of_starts hfree moves hstarts c)

section

variable {ι : Type} [DecidableEq ι] {owner : τ → ι}

/-- A move of a schedule that counts the threads of each owner on their own, so that it means
the same whatever the threads of the others do. -/
inductive OwnedMove (ι τ γ : Type) where
  | start (t : τ)
  | move (owner : ι) (index : Nat) (choice : γ)

def execOwned (owner : τ → ι) (next : γ → σ → τ → σ × List τ) (c : σ × (ι → List τ)) :
    OwnedMove ι τ γ → σ × (ι → List τ)
  | .start t => (c.1, Function.update c.2 (owner t) (t :: c.2 (owner t)))
  | .move who index choice =>
    match (c.2 who)[index]? with
    | none => c
    | some t =>
      ((next choice c.1 t).1,
        Function.update c.2 who ((next choice c.1 t).2 ++ (c.2 who).eraseIdx index))

end

end Nodra.Interleave
