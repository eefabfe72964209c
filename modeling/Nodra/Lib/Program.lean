import Nodra.Lib.Interleave

/-! Programs over a shared state: trees of atomic steps, each with a label that says where
the program stands.  A tree can be evaluated in one piece, or run as a thread among
others.  For threads there are the rules of rely and guarantee: a step answers for what it
does, and a program counts on what the others leave alone while it stands at a label. -/
namespace Nodra.Interleave
open List

inductive Program (ι σ γ α : Type) where
  | done (value : α)
  | step (label : ι) (run : γ → σ → σ) (next : γ → σ → Program ι σ γ α)

namespace Program

variable {ι κ σ γ α β : Type}

def bind : Program ι σ γ α → (α → Program ι σ γ β) → Program ι σ γ β
  | .done value, f => f value
  | .step label run next, f => .step label run fun choice s => (next choice s).bind f

instance : Monad (Program ι σ γ) where
  pure := .done
  bind := bind

def access (label : ι) (f : γ → σ → σ × α) : Program ι σ γ α :=
  .step label (fun choice s => (f choice s).1) fun choice s => .done (f choice s).2

def read (label : ι) (f : σ → α) : Program ι σ γ α := access label fun _ s => (s, f s)

def relabel (f : ι → κ) : Program ι σ γ α → Program κ σ γ α
  | .done value => .done value
  | .step label run next => .step (f label) run fun choice s => (next choice s).relabel f

def label? : Program ι σ γ α → Option ι
  | .done _ => none
  | .step label _ _ => some label

section

def eval (oracle : ι → γ) : Program ι σ γ α → σ → σ × α
  | .done value, s => (s, value)
  | .step label run next, s => (next (oracle label) s).eval oracle (run (oracle label) s)

variable (oracle : ι → γ)

@[simp] theorem eval_pure (value : α) (s : σ) :
    (pure value : Program ι σ γ α).eval oracle s = (s, value) := rfl

@[simp] theorem eval_access (label : ι) (f : γ → σ → σ × α) (s : σ) :
    (access label f).eval oracle s = f (oracle label) s := rfl

@[simp] theorem eval_read (label : ι) (f : σ → α) (s : σ) :
    (read label f : Program ι σ γ α).eval oracle s = (s, f s) := rfl

@[simp] theorem eval_bind (p : Program ι σ γ α) (f : α → Program ι σ γ β) (s : σ) :
    (p >>= f).eval oracle s = (f (p.eval oracle s).2).eval oracle (p.eval oracle s).1 := by
  change (p.bind f).eval oracle s = _
  induction p generalizing s with
  | done value => rfl
  | step label run next ih => exact ih _ _ _

@[simp] theorem eval_relabel (f : κ → ι) (p : Program κ σ γ α) (s : σ) :
    (p.relabel f).eval oracle s = p.eval (fun label => oracle (f label)) s := by
  induction p generalizing s with
  | done value => rfl
  | step label run next ih => exact ih _ _ _

def Passes (ok : ι → γ → σ → Prop) : Program ι σ γ α → σ → Prop
  | .done _, _ => True
  | .step label run next, s =>
    ok label (oracle label) s ∧ (next (oracle label) s).Passes ok (run (oracle label) s)

instance decidablePasses {ok : ι → γ → σ → Prop} [∀ label choice s, Decidable (ok label choice s)] :
    (p : Program ι σ γ α) → (s : σ) → Decidable (p.Passes oracle ok s)
  | .done _, _ => isTrue trivial
  | .step label run next, s =>
    have : Decidable ((next (oracle label) s).Passes oracle ok (run (oracle label) s)) := decidablePasses _ _
    inferInstanceAs (Decidable (ok label (oracle label) s ∧ _))

theorem passes_of_forall {ok : ι → γ → σ → Prop} (h : ∀ label s, ok label (oracle label) s)
    (p : Program ι σ γ α) (s : σ) : p.Passes oracle ok s := by
  induction p generalizing s with
  | done value => trivial
  | step label run next ih => exact ⟨h label s, ih _ _ _⟩

/-- What holds of the value and the state at the end of an evaluation. -/
def Ends (post : α → σ → Prop) (p : Program ι σ γ α) (s : σ) : Prop :=
  post (p.eval oracle s).2 (p.eval oracle s).1

theorem Ends.bind {post : α → σ → Prop} {post' : β → σ → Prop} {p : Program ι σ γ α}
    {f : α → Program ι σ γ β} {s : σ} (hp : p.Ends oracle post s)
    (hf : ∀ value s, post value s → (f value).Ends oracle post' s) : (p >>= f).Ends oracle post' s := by
  unfold Ends
  rw [eval_bind]
  exact hf _ _ hp

theorem Ends.imp {oracle : ι → γ} {post post' : α → σ → Prop} {p : Program ι σ γ α} {s : σ}
    (hp : p.Ends oracle post s) (h : ∀ value s, post value s → post' value s) : p.Ends oracle post' s :=
  h _ _ hp

theorem Ends.read (label : ι) (f : σ → α) (s : σ) :
    (read label f : Program ι σ γ α).Ends oracle (fun value s' => value = f s ∧ s' = s) s := ⟨rfl, rfl⟩

def reached : Nat → Program ι σ γ α → σ → σ
  | 0, _, s => s
  | _ + 1, .done _, s => s
  | n + 1, .step label run next, s => reached n (next (oracle label) s) (run (oracle label) s)

@[simp] theorem reached_zero (p : Program ι σ γ α) (s : σ) : p.reached oracle 0 s = s := rfl

@[simp] theorem reached_pure (value : α) (n : Nat) (s : σ) :
    (pure value : Program ι σ γ α).reached oracle n s = s := by
  cases n <;> rfl

@[simp] theorem reached_access (label : ι) (f : γ → σ → σ × α) (n : Nat) (s : σ) :
    (access label f).reached oracle (n + 1) s = (f (oracle label) s).1 :=
  reached_pure oracle _ n _

@[simp] theorem reached_access_bind (label : ι) (f : γ → σ → σ × α) (g : α → Program ι σ γ β)
    (n : Nat) (s : σ) :
    (access label f >>= g).reached oracle (n + 1) s =
      (g (f (oracle label) s).2).reached oracle n (f (oracle label) s).1 := rfl

def trace : Program ι σ γ α → σ → List (ι × σ)
  | .done _, _ => []
  | .step label run next, s =>
    (label, run (oracle label) s) :: (next (oracle label) s).trace (run (oracle label) s)

theorem trace_bind (p : Program ι σ γ α) (f : α → Program ι σ γ β) (s : σ) :
    (p >>= f).trace oracle s =
      p.trace oracle s ++ (f (p.eval oracle s).2).trace oracle (p.eval oracle s).1 := by
  change (p.bind f).trace oracle s = _
  induction p generalizing s with
  | done value => rfl
  | step label run next ih => exact congrArg (List.cons _) (ih _ _ _)

theorem trace_relabel (f : κ → ι) (p : Program κ σ γ α) (s : σ) :
    (p.relabel f).trace oracle s =
      (p.trace (fun label => oracle (f label)) s).map fun step => (f step.1, step.2) := by
  induction p generalizing s with
  | done value => rfl
  | step label run next ih => exact congrArg (List.cons _) (ih _ _ _)

/-- The state that an evaluation leaves when it is cut off after a number of steps, or not at all. -/
def left (cut : Option Nat) (p : Program ι σ γ α) (s : σ) : σ :=
  match cut with
  | none => (p.eval oracle s).1
  | some n => p.reached oracle n s

theorem exists_reached_eq_eval (p : Program ι σ γ α) (s : σ) :
    ∃ bound, ∀ n, bound ≤ n → p.reached oracle n s = (p.eval oracle s).1 := by
  induction p generalizing s with
  | done value => exact ⟨0, fun n _ => by cases n <;> rfl⟩
  | step label run next ih =>
    obtain ⟨bound, hbound⟩ := ih (oracle label) s (run (oracle label) s)
    refine ⟨bound + 1, fun n hn => ?_⟩
    obtain ⟨m, rfl⟩ : ∃ m, n = m + 1 := ⟨n - 1, by omega⟩
    exact hbound m (by omega)

theorem exists_left_eq_reached (cut : Option Nat) (p : Program ι σ γ α) (s : σ) (least : Nat) :
    ∃ n, p.left oracle cut s = p.reached oracle n s ∧
      ∀ k ≤ least, k ≤ n ↔ ∀ m ∈ cut, k ≤ m := by
  cases cut with
  | some m => exact ⟨m, rfl, fun k _ => by simp⟩
  | none =>
    obtain ⟨bound, hbound⟩ := p.exists_reached_eq_eval oracle s
    refine ⟨max bound least, (hbound _ (Nat.le_max_left _ _)).symm, fun k hk => ?_⟩
    exact ⟨nofun, fun _ => hk.trans (Nat.le_max_right _ _)⟩

end

section

def next (choice : γ) (s : σ) : Program ι σ γ α → σ × List (Program ι σ γ α)
  | .done _ => (s, [])
  | .step _ run next => (run choice s, [next choice s])

def system (starts : Program ι σ γ α → Prop) : System σ (Program ι σ γ α) γ where
  starts := starts
  next := next

variable (sys : System σ (Program ι σ γ α) γ) {others : Multiset (Program ι σ γ α)}

theorem run_eval {ok : ι → γ → σ → Prop} (hnext : sys.next = next)
    (hallowed : ∀ choice s t, (∀ label ∈ t.label?, ok label choice s) → sys.allowed choice s t others)
    (oracle : ι → γ) (p : Program ι σ γ α) (s : σ) (hpass : p.Passes oracle ok s) :
    sys.Run ⟨s, p ::ₘ others⟩ ⟨(p.eval oracle s).1, .done (p.eval oracle s).2 ::ₘ others⟩ := by
  induction p generalizing s with
  | done value => exact .refl
  | step label run next ih =>
    refine .move (oracle label) (hallowed _ _ _ ?_) ?_ (ih (oracle label) s (run (oracle label) s) hpass.2)
    · rintro _ ⟨⟩
      exact hpass.1
    · rw [hnext]
      rfl

theorem run_alone [Inhabited γ] {ok : ι → γ → σ → Prop} (hnext : sys.next = next)
    (hallowed : ∀ choice s t, (∀ label ∈ t.label?, ok label choice s) → sys.allowed choice s t others)
    (oracle : ι → γ) (p : Program ι σ γ α) (hstart : sys.starts p) (s : σ) (hpass : p.Passes oracle ok s) :
    sys.Run ⟨s, others⟩ ⟨(p.eval oracle s).1, others⟩ := by
  refine Relation.ReflTransGen.head (.start p hstart) ?_
  refine Relation.ReflTransGen.trans (run_eval sys hnext hallowed oracle p s hpass) ?_
  refine System.Run.last default (hallowed _ _ _ nofun) ?_
  rw [hnext]
  rfl

/-- Every move of a schedule is made where it may be, by a thread that stands apart from the others. -/
def Follows (ok : ι → γ → σ → Prop) (apart : ι → ι → Prop) :
    σ × List (Program ι σ γ α) → List (Move (Program ι σ γ α) γ) → Prop
  | _, [] => True
  | c, .start t :: moves => Follows ok apart (exec next c (.start t)) moves
  | c, .move index choice :: moves =>
    (∀ t ∈ c.2[index]?, ∀ label ∈ t.label?, ok label choice c.1 ∧
      ∀ u ∈ c.2.eraseIdx index, ∀ label' ∈ u.label?, apart label' label) ∧
      Follows ok apart (exec next c (.move index choice)) moves

instance decidableFollows {ok : ι → γ → σ → Prop} {apart : ι → ι → Prop}
    [∀ label choice s, Decidable (ok label choice s)] [∀ label label', Decidable (apart label label')] :
    (c : σ × List (Program ι σ γ α)) → (moves : List (Move (Program ι σ γ α) γ)) → Decidable (Follows ok apart c moves)
  | _, [] => isTrue trivial
  | c, .start t :: moves => decidableFollows (exec next c (.start t)) moves
  | c, .move index choice :: moves =>
    have : Decidable (Follows ok apart (exec next c (.move index choice)) moves) := decidableFollows _ _
    inferInstanceAs (Decidable ((∀ t ∈ c.2[index]?, ∀ label ∈ t.label?, ok label choice c.1 ∧
      ∀ u ∈ c.2.eraseIdx index, ∀ label' ∈ u.label?, apart label' label) ∧ _))

theorem run_of_follows {ok : ι → γ → σ → Prop} {apart : ι → ι → Prop} (hnext : sys.next = next)
    (hallowed : ∀ choice s t (rest : List (Program ι σ γ α)), (∀ label ∈ t.label?, ok label choice s ∧
      ∀ u ∈ rest, ∀ label' ∈ u.label?, apart label' label) → sys.allowed choice s t rest)
    (moves : List (Move (Program ι σ γ α) γ)) (hstarts : ∀ t, .start t ∈ moves → sys.starts t)
    (c : σ × List (Program ι σ γ α)) (h : Follows ok apart c moves) :
    sys.Run ⟨c.1, c.2⟩ ⟨(moves.foldl (exec next) c).1, (moves.foldl (exec next) c).2⟩ := by
  rw [← hnext]
  refine sys.run_of_exec moves c ?_
  induction moves generalizing c with
  | nil => trivial
  | cons move moves ih =>
    have hrest : ∀ t, .start t ∈ moves → sys.starts t := fun t ht => hstarts t (mem_cons_of_mem move ht)
    cases move with
    | start t =>
      refine ⟨hstarts t mem_cons_self, ih hrest _ ?_⟩
      rw [hnext]
      exact h
    | move index choice =>
      refine ⟨fun t ht => hallowed _ _ _ _ (h.1 t ht), ih hrest _ ?_⟩
      rw [hnext]
      exact h.2

/-- A part of a script: a job is taken on, or the thread at a position makes some steps. -/
inductive Scene (κ γ : Type) where
  | start (job : κ)
  | turn (index steps : Nat) (choice : γ)

def Scene.moves (thread : κ → Program ι σ γ α) : Scene κ γ → List (Move (Program ι σ γ α) γ)
  | .start job => [.start (thread job)]
  | .turn index steps choice => List.replicate steps (.move index choice)

def play (thread : κ → Program ι σ γ α) (script : List (Scene κ γ)) (s : σ) : σ × List (Program ι σ γ α) :=
  (script.flatMap (Scene.moves thread)).foldl (exec next) (s, [])

theorem run_of_play {ok : ι → γ → σ → Prop} {apart : ι → ι → Prop} (hnext : sys.next = next)
    (hallowed : ∀ choice s t (rest : List (Program ι σ γ α)), (∀ label ∈ t.label?, ok label choice s ∧
      ∀ u ∈ rest, ∀ label' ∈ u.label?, apart label' label) → sys.allowed choice s t rest)
    {thread : κ → Program ι σ γ α} (hstarts : ∀ job, sys.starts (thread job)) (script : List (Scene κ γ)) (s : σ)
    (h : Follows ok apart (s, []) (script.flatMap (Scene.moves thread))) :
    sys.Run ⟨s, 0⟩ ⟨(play thread script s).1, (play thread script s).2⟩ := by
  refine run_of_follows sys hnext hallowed _ (fun t ht => ?_) (s, []) h
  obtain ⟨scene, _, hmem⟩ := mem_flatMap.mp ht
  cases scene with
  | start job =>
    cases mem_singleton.mp hmem
    exact hstarts job
  | turn index steps choice => cases eq_of_mem_replicate hmem

end

section

/-- `rely` is what the others may do while a program stands at a label, `guar` what the
step at the label may do; `inv` holds throughout.  A step is only taken where it is `enabled`. -/
structure Contract (ι σ γ : Type) where
  inv : σ → Prop
  rely : ι → σ → σ → Prop
  guar : ι → γ → σ → σ → Prop
  enabled : ι → γ → σ → Prop := fun _ _ _ => True

/-- From this state on, with the others as in the contract, every step of the program is as
in the contract and its value meets `post`. -/
def Keeps (contract : Contract ι σ γ) (post : α → σ → Prop) : Program ι σ γ α → σ → Prop
  | .done value, s => post value s
  | .step label run next, s =>
    ∀ s', contract.rely label s s' → contract.inv s' → ∀ choice, contract.enabled label choice s' →
      contract.inv (run choice s') ∧ contract.guar label choice s' (run choice s') ∧
        (next choice s').Keeps contract post (run choice s')

variable {contract : Contract ι σ γ} {post : α → σ → Prop} {s : σ}

theorem Keeps.pure {value : α} (h : post value s) :
    (pure value : Program ι σ γ α).Keeps contract post s := h

theorem Keeps.access {label : ι} {f : γ → σ → σ × α}
    (h : ∀ s', contract.rely label s s' → contract.inv s' → ∀ choice,
      contract.inv (f choice s').1 ∧ contract.guar label choice s' (f choice s').1 ∧
        post (f choice s').2 (f choice s').1) :
    (Program.access label f).Keeps contract post s :=
  fun s' hrely hinv choice _ => h s' hrely hinv choice

variable {p : Program ι σ γ α}

theorem Keeps.bind {post' : β → σ → Prop} {f : α → Program ι σ γ β}
    (hp : p.Keeps contract post s) (hf : ∀ value s, post value s → (f value).Keeps contract post' s) :
    (p >>= f).Keeps contract post' s := by
  change (p.bind f).Keeps contract post' s
  induction p generalizing s with
  | done value => exact hf value s hp
  | step label run next ih =>
    intro s' hrely hinv choice henabled
    obtain ⟨hinv', hguar, hnext⟩ := hp s' hrely hinv choice henabled
    exact ⟨hinv', hguar, ih choice s' hnext⟩

theorem Keeps.mono {post' : α → σ → Prop} (hp : p.Keeps contract post s)
    (h : ∀ value s, post value s → post' value s) : p.Keeps contract post' s := by
  induction p generalizing s with
  | done value => exact h value s hp
  | step label run next ih =>
    intro s' hrely hinv choice henabled
    obtain ⟨hinv', hguar, hnext⟩ := hp s' hrely hinv choice henabled
    exact ⟨hinv', hguar, ih choice s' hnext⟩

theorem Keeps.stay {keep : σ → Prop} (hp : p.Keeps contract post s) (hs : keep s)
    (hrely : ∀ label s s', contract.rely label s s' → keep s → keep s')
    (hguar : ∀ label choice s s', contract.guar label choice s s' → keep s → keep s') :
    p.Keeps contract (fun value s => post value s ∧ keep s) s := by
  induction p generalizing s with
  | done value => exact ⟨hp, hs⟩
  | step label run next ih =>
    intro s' hs' hinv choice henabled
    obtain ⟨hinv', hstep, hnext⟩ := hp s' hs' hinv choice henabled
    exact ⟨hinv', hstep, ih choice s' hnext (hguar label choice _ _ hstep (hrely label _ _ hs' hs))⟩

theorem Keeps.eval (hrefl : ∀ label s, contract.rely label s s)
    (hp : p.Keeps contract post s) (hs : contract.inv s) (oracle : ι → γ)
    (henabled : ∀ label s, contract.enabled label (oracle label) s := by exact fun _ _ => trivial) :
    contract.inv (p.eval oracle s).1 ∧ post (p.eval oracle s).2 (p.eval oracle s).1 := by
  induction p generalizing s with
  | done value => exact ⟨hs, hp⟩
  | step label run next ih =>
    obtain ⟨hinv, -, hnext⟩ := hp s (hrefl label s) hs (oracle label) (henabled label s)
    exact ih (oracle label) s hnext hinv

def Contract.relabel (contract : Contract ι σ γ) (f : κ → ι) : Contract κ σ γ where
  inv := contract.inv
  rely := fun label => contract.rely (f label)
  guar := fun label => contract.guar (f label)
  enabled := fun label => contract.enabled (f label)

theorem Keeps.relabel {f : κ → ι} {p : Program κ σ γ α} (h : p.Keeps (contract.relabel f) post s) :
    (p.relabel f).Keeps contract post s := by
  induction p generalizing s with
  | done value => exact h
  | step label run next ih =>
    intro s' hrely hinv choice henabled
    obtain ⟨hinv', hguar, hnext⟩ := h s' hrely hinv choice henabled
    exact ⟨hinv', hguar, ih choice s' hnext⟩

theorem Keeps.stable (htrans : ∀ label s s' s'', contract.rely label s s' →
      contract.rely label s' s'' → contract.rely label s s'')
    {s' : σ} (hp : p.Keeps contract (fun _ _ => True) s)
    (hrely : ∀ label ∈ p.label?, contract.rely label s s') :
    p.Keeps contract (fun _ _ => True) s' := by
  cases p with
  | done value => trivial
  | step label run next =>
    intro s'' hrely' hinv choice henabled
    exact hp s'' (htrans label s s' s'' (hrely label rfl) hrely') hinv choice henabled

/-- The contract fits a system of programs: what a step may do is what the others count on. -/
structure Contract.Fits (contract : Contract ι σ γ) (sys : System σ (Program ι σ γ α) γ) : Prop where
  next : sys.next = Program.next
  refl : ∀ label s, contract.rely label s s
  trans : ∀ label s s' s'', contract.rely label s s' → contract.rely label s' s'' →
    contract.rely label s s''
  others : ∀ choice s label run next rest, sys.allowed choice s (.step label run next) rest →
    contract.inv s → contract.guar label choice s (run choice s) →
    ∀ u ∈ rest, ∀ label' ∈ u.label?, contract.rely label' s (run choice s)
  starts : ∀ s t, contract.inv s → sys.starts t → t.Keeps contract (fun _ _ => True) s
  enabled : ∀ choice s label run next rest, sys.allowed choice s (.step label run next) rest →
    contract.enabled label choice s := by exact fun _ _ _ _ _ _ _ => trivial

variable {sys : System σ (Program ι σ γ α) γ}

theorem Contract.Fits.outline (h : contract.Fits sys) :
    sys.Outline contract.inv fun s t => t.Keeps contract (fun _ _ => True) s where
  starts := h.starts
  inv_next := by
    intro choice s t rest hallowed hinv ht
    rw [h.next]
    cases t with
    | done value => exact hinv
    | step label run next =>
      exact (ht s (h.refl label s) hinv choice (h.enabled choice s label run next rest hallowed)).1
  asserts_next := by
    intro choice s t rest hallowed hinv ht u hu
    rw [h.next] at hu ⊢
    cases t with
    | done value => cases hu
    | step label run next =>
      obtain rfl : u = next choice s := by simpa [Program.next] using hu
      exact (ht s (h.refl label s) hinv choice (h.enabled choice s label run next rest hallowed)).2.2
  stable := by
    intro choice s t rest hallowed hinv ht u hu hkeeps
    rw [h.next]
    cases t with
    | done value => exact hkeeps
    | step label run next =>
      have hguar := (ht s (h.refl label s) hinv choice (h.enabled choice s label run next rest hallowed)).2.1
      exact hkeeps.stable h.trans (h.others choice s label run next rest hallowed hinv hguar u hu)

theorem Contract.Fits.run (h : contract.Fits sys) {R : σ → σ → Prop} (hrefl : ∀ s, R s s)
    (htrans : ∀ s s' s'', R s s' → R s' s'' → R s s'')
    (hguar : ∀ label choice s s', contract.inv s → contract.guar label choice s s' → R s s')
    {c c' : Config σ (Program ι σ γ α)} (hrun : sys.Run c c')
    (hc : c.Meets contract.inv fun s t => t.Keeps contract (fun _ _ => True) s) :
    R c.shared c'.shared := by
  induction hrun with
  | refl => exact hrefl _
  | @tail c' c'' hrun hstep ih =>
    refine htrans _ _ _ ih ?_
    have hmeets := h.outline.run hrun hc
    cases hstep with
    | start t hstart => exact hrefl _
    | @move s t rest choice hallowed =>
      rw [h.next]
      cases t with
      | done value => exact hrefl _
      | step label run next =>
        have ht := hmeets.2 _ (Multiset.mem_cons_self _ rest)
        exact hguar label choice s _ hmeets.1
          (ht s (h.refl label s) hmeets.1 choice (h.enabled choice s label run next rest hallowed)).2.1

end

section

def Steps (P : ι → (γ → σ → σ) → Prop) : Program ι σ γ α → Prop
  | .done _ => True
  | .step label run next => P label run ∧ ∀ choice s, (next choice s).Steps P

variable {P Q : ι → (γ → σ → σ) → Prop}

theorem Steps.bind {p : Program ι σ γ α} {f : α → Program ι σ γ β} (hp : p.Steps P)
    (hf : ∀ value, (f value).Steps P) : (p >>= f).Steps P := by
  change (p.bind f).Steps P
  induction p with
  | done value => exact hf value
  | step label run next ih => exact ⟨hp.1, fun choice s => ih choice s (hp.2 choice s)⟩

theorem Steps.mono {p : Program ι σ γ α} (hp : p.Steps P) (h : ∀ label run, P label run → Q label run) :
    p.Steps Q := by
  induction p with
  | done value => trivial
  | step label run next ih => exact ⟨h label run hp.1, fun choice s => ih choice s (hp.2 choice s)⟩

/-- A program of steps that each keep the contract, and a relation with the state before. -/
theorem Steps.keeps {contract : Contract ι σ γ} {R : σ → σ → Prop} {p : Program ι σ γ α} {s : σ}
    (hp : p.Steps P) (hrefl : ∀ s, R s s) (htrans : ∀ s s' s'', R s s' → R s' s'' → R s s'')
    (hrely : ∀ label run s s', P label run → contract.rely label s s' → R s s')
    (hstep : ∀ label run choice s, P label run → contract.inv s → contract.enabled label choice s →
      contract.inv (run choice s) ∧ contract.guar label choice s (run choice s) ∧ R s (run choice s)) :
    p.Keeps contract (fun _ s' => R s s') s := by
  induction p generalizing s with
  | done value => exact hrefl s
  | step label run next ih =>
    intro s' hs' hinv choice henabled
    obtain ⟨hinv', hguar, hR⟩ := hstep label run choice s' hp.1 hinv henabled
    have hbefore : R s (run choice s') := htrans _ _ _ (hrely label run s s' hp.1 hs') hR
    exact ⟨hinv', hguar, (ih choice s' (hp.2 choice s')).mono fun _ _ => htrans _ _ _ hbefore⟩

end

section

variable {ε : Type} {contract : Contract ι σ γ} {post : α → σ → Prop} {s : σ}

/-- For programs that may fail: a failure is all right anywhere. -/
def KeepsOk (contract : Contract ι σ γ) (post : α → σ → Prop) (p : ExceptT ε (Program ι σ γ) α) (s : σ) :
    Prop :=
  p.run.Keeps contract (fun result s => ∀ value, result = .ok value → post value s) s

variable {value : α} {label : ι} {f : α → ExceptT ε (Program ι σ γ) Unit} {p : ExceptT ε (Program ι σ γ) α}
  {keep : σ → Prop} {c : Prop} {q : ExceptT ε (Program ι σ γ) α} {xs : List α} {x : Option α}
  {oracle : ι → γ}

theorem KeepsOk.pure (h : post value s) :
    KeepsOk contract post (pure value : ExceptT ε (Program ι σ γ) α) s := by
  rintro _ ⟨⟩
  exact h

theorem KeepsOk.throw {error : ε} :
    KeepsOk contract post (throw error : ExceptT ε (Program ι σ γ) α) s := nofun

theorem KeepsOk.access {f : γ → σ → σ × Except ε α}
    (h : ∀ s', contract.rely label s s' → contract.inv s' → ∀ choice, contract.enabled label choice s' →
      contract.inv (f choice s').1 ∧ contract.guar label choice s' (f choice s').1 ∧
        ∀ value, (f choice s').2 = .ok value → post value (f choice s').1) :
    KeepsOk contract post (ExceptT.mk (Program.access label f)) s :=
  fun s' hrely hinv choice henabled => h s' hrely hinv choice henabled

theorem KeepsOk.bind {post' : β → σ → Prop}
    {f : α → ExceptT ε (Program ι σ γ) β} (hp : KeepsOk contract post p s)
    (hf : ∀ value s, post value s → KeepsOk contract post' (f value) s) :
    KeepsOk contract post' (p >>= f) s := by
  refine Keeps.bind hp fun result s hresult => ?_
  cases result with
  | ok value => exact hf value s (hresult value rfl)
  | error error => exact nofun

theorem KeepsOk.mono {post' : α → σ → Prop}
    (hp : KeepsOk contract post p s) (h : ∀ value s, post value s → post' value s) :
    KeepsOk contract post' p s :=
  Keeps.mono hp fun _ s hresult value heq => h value s (hresult value heq)

theorem KeepsOk.tryCatch {f : ε → ExceptT ε (Program ι σ γ) α} (hp : KeepsOk contract post p s) (hs : keep s)
    (hrely : ∀ label s s', contract.rely label s s' → keep s → keep s')
    (hguar : ∀ label choice s s', contract.guar label choice s s' → keep s → keep s')
    (hf : ∀ error s, keep s → KeepsOk contract post (f error) s) :
    KeepsOk contract post (tryCatch p f) s := by
  refine Keeps.bind (Keeps.stay hp hs hrely hguar) fun result s hresult => ?_
  cases result with
  | ok value => exact hresult.1
  | error error => exact hf error s hresult.2

theorem KeepsOk.ite [Decidable c] (hp : c → KeepsOk contract post p s) (hq : ¬c → KeepsOk contract post q s) :
    KeepsOk contract post (if c then p else q) s := by
  split
  · next h => exact hp h
  · next h => exact hq h

theorem KeepsOk.forM (h : ∀ x ∈ xs, ∀ s, keep s → KeepsOk contract (fun _ => keep) (f x) s) (hs : keep s) :
    KeepsOk contract (fun _ => keep) (xs.forM f) s := by
  induction xs generalizing s with
  | nil => exact .pure hs
  | cons x xs ih =>
    refine .bind (h x mem_cons_self s hs) fun _ s hs => ?_
    exact ih (fun y hy => h y (mem_cons_of_mem x hy)) hs

theorem KeepsOk.forM_rest {keep : List α → σ → Prop}
    (h : ∀ x xs s, keep (x :: xs) s → KeepsOk contract (fun _ => keep xs) (f x) s) (hs : keep xs s) :
    KeepsOk contract (fun _ => keep []) (xs.forM f) s := by
  induction xs generalizing s with
  | nil => exact .pure hs
  | cons x xs ih => exact .bind (h x xs s hs) fun _ _ hs => ih hs

theorem KeepsOk.forM_option (h : ∀ y ∈ x, KeepsOk contract (fun _ => keep) (f y) s) (hs : keep s) :
    KeepsOk contract (fun _ => keep) (x.forM f) s := by
  cases x with
  | none => exact .pure hs
  | some y => exact h y rfl

theorem KeepsOk.discard (hp : KeepsOk contract (fun _ => keep) p s) :
    KeepsOk contract (fun _ => keep) (discard p) s :=
  .bind hp fun _ _ hs => .pure hs

@[simp] theorem eval_run_pure (oracle : ι → γ) (value : α) (s : σ) :
    (pure value : ExceptT ε (Program ι σ γ) α).run.eval oracle s = (s, .ok value) := rfl

@[simp] theorem eval_run_throw (oracle : ι → γ) (error : ε) (s : σ) :
    (throw error : ExceptT ε (Program ι σ γ) α).run.eval oracle s = (s, .error error) := rfl

theorem eval_run_bind (oracle : ι → γ) (p : ExceptT ε (Program ι σ γ) α) (f : α → ExceptT ε (Program ι σ γ) β) (s : σ) :
    (p >>= f).run.eval oracle s =
      match p.run.eval oracle s with
      | (s', .ok value) => (f value).run.eval oracle s'
      | (s', .error error) => (s', .error error) := by
  rw [ExceptT.run_bind, eval_bind]
  rcases p.run.eval oracle s with ⟨s', value | error⟩ <;> rfl

theorem eval_run_bind_ok {s s' : σ}
    (h : p.run.eval oracle s = (s', .ok value)) (f : α → ExceptT ε (Program ι σ γ) β) :
    (p >>= f).run.eval oracle s = (f value).run.eval oracle s' := by
  rw [eval_run_bind, h]

theorem eval_run_bind_error {s : σ} {error : ε}
    (h : (p.run.eval oracle s).2 = .error error) (f : α → ExceptT ε (Program ι σ γ) β) :
    ((p >>= f).run.eval oracle s).2 = .error error := by
  rw [eval_run_bind]
  revert h
  rcases p.run.eval oracle s with ⟨s', value | error'⟩
  · exact fun h => congrArg _ (Except.error.inj h)
  · exact nofun

theorem eval_run_discard (oracle : ι → γ) (p : ExceptT ε (Program ι σ γ) α) (s : σ) :
    (discard p).run.eval oracle s = ((p.run.eval oracle s).1, (p.run.eval oracle s).2.map fun _ => ()) := by
  change (p >>= fun _ => pure ()).run.eval oracle s = _
  rw [eval_run_bind]
  rcases p.run.eval oracle s with ⟨s', value | error⟩ <;> rfl

def StepsOk (P : ι → (γ → σ → σ) → Prop) (p : ExceptT ε (Program ι σ γ) α) : Prop := p.run.Steps P

variable {P Q : ι → (γ → σ → σ) → Prop}

theorem StepsOk.pure : StepsOk P (pure value : ExceptT ε (Program ι σ γ) α) := trivial

theorem StepsOk.throw {error : ε} : StepsOk P (throw error : ExceptT ε (Program ι σ γ) α) := trivial

theorem StepsOk.access {f : γ → σ → σ × Except ε α} (h : P label fun choice s => (f choice s).1) :
    StepsOk P (ExceptT.mk (Program.access label f)) := ⟨h, fun _ _ => trivial⟩

theorem StepsOk.bind {f : α → ExceptT ε (Program ι σ γ) β}
    (hp : StepsOk P p) (hf : ∀ value, StepsOk P (f value)) : StepsOk P (p >>= f) := by
  refine Steps.bind hp fun result => ?_
  cases result with
  | ok value => exact hf value
  | error error => trivial

theorem StepsOk.mono (hp : StepsOk P p)
    (h : ∀ label run, P label run → Q label run) : StepsOk Q p := Steps.mono hp h

theorem StepsOk.ite [Decidable c] (hp : StepsOk P p) (hq : StepsOk P q) : StepsOk P (if c then p else q) := by
  split
  · exact hp
  · exact hq

theorem StepsOk.discard (hp : StepsOk P p) : StepsOk P (discard p) :=
  .bind hp fun _ => .pure

theorem StepsOk.forM (h : ∀ x, StepsOk P (f x)) :
    StepsOk P (xs.forM f) := by
  induction xs with
  | nil => exact .pure
  | cons x xs ih => exact .bind (h x) fun _ => ih

theorem StepsOk.forM_option (h : ∀ y, StepsOk P (f y)) : StepsOk P (x.forM f) := by
  cases x with
  | none => exact .pure
  | some y => exact h y

theorem StepsOk.keeps {R : σ → σ → Prop}
    (hp : StepsOk P p) (hrefl : ∀ s, R s s) (htrans : ∀ s s' s'', R s s' → R s' s'' → R s s'')
    (hrely : ∀ label run s s', P label run → contract.rely label s s' → R s s')
    (hstep : ∀ label run choice s, P label run → contract.inv s → contract.enabled label choice s →
      contract.inv (run choice s) ∧ contract.guar label choice s (run choice s) ∧ R s (run choice s)) :
    KeepsOk contract (fun _ s' => R s s') p s :=
  (Steps.keeps hp hrefl htrans hrely hstep).mono fun _ _ h _ _ => h

end

section

variable {ε : Type} {enabled : ι → γ → σ → Prop} {post : α → σ → Prop} {s : σ}

def Contract.sole (enabled : ι → γ → σ → Prop) : Contract ι σ γ where
  inv := fun _ => True
  rely := fun _ s s' => s' = s
  guar := fun _ _ _ _ => True
  enabled := enabled

/-- For programs that may fail: this one does not, whatever is chosen at its steps. -/
def Finishes (enabled : ι → γ → σ → Prop) (post : α → σ → Prop) (p : ExceptT ε (Program ι σ γ) α) (s : σ) :
    Prop :=
  p.run.Keeps (.sole enabled) (fun result s' => ∃ value, result = .ok value ∧ post value s') s

theorem Finishes.pure {value : α} (h : post value s) :
    Finishes enabled post (pure value : ExceptT ε (Program ι σ γ) α) s := ⟨value, rfl, h⟩

theorem Finishes.access {label : ι} {f : γ → σ → σ × Except ε α}
    (h : ∀ choice, enabled label choice s → ∃ value, (f choice s).2 = .ok value ∧ post value (f choice s).1) :
    Finishes enabled post (ExceptT.mk (Program.access label f)) s := by
  intro s' hrely _ choice henabled
  cases hrely
  exact ⟨trivial, trivial, h choice henabled⟩

variable {f : α → ExceptT ε (Program ι σ γ) β} {p : ExceptT ε (Program ι σ γ) α}

theorem Finishes.bind_keeps {post' : Except ε β → σ → Prop} (hp : Finishes enabled post p s)
    (hf : ∀ value s, post value s → (f value).run.Keeps (.sole enabled) post' s) :
    (p >>= f).run.Keeps (.sole enabled) post' s := by
  refine Keeps.bind hp fun result s hresult => ?_
  obtain ⟨value, rfl, hvalue⟩ := hresult
  exact hf value s hvalue

theorem Finishes.bind {post' : β → σ → Prop} (hp : Finishes enabled post p s)
    (hf : ∀ value s, post value s → Finishes enabled post' (f value) s) : Finishes enabled post' (p >>= f) s :=
  hp.bind_keeps hf

theorem Finishes.mono {post' : α → σ → Prop} (hp : Finishes enabled post p s)
    (h : ∀ value s, post value s → post' value s) : Finishes enabled post' p s :=
  Keeps.mono hp fun _ s ⟨value, hvalue, hpost⟩ => ⟨value, hvalue, h value s hpost⟩

theorem Finishes.discard {keep : σ → Prop}
    (hp : Finishes enabled (fun _ => keep) p s) : Finishes enabled (fun _ => keep) (discard p) s :=
  .bind hp fun _ _ hs => .pure hs

theorem Finishes.forM_rest {keep : List α → σ → Prop} {f : α → ExceptT ε (Program ι σ γ) Unit} {xs : List α}
    (h : ∀ x xs s, keep (x :: xs) s → Finishes enabled (fun _ => keep xs) (f x) s) (hs : keep xs s) :
    Finishes enabled (fun _ => keep []) (xs.forM f) s := by
  induction xs generalizing s with
  | nil => exact .pure hs
  | cons x xs ih => exact .bind (h x xs s hs) fun _ _ hs => ih hs

/-- A program that finishes, and steps that each keep a relation with the state before. -/
theorem Finishes.along {P : ι → (γ → σ → σ) → Prop} {R : σ → σ → Prop}
    (hp : Finishes enabled post p s) (hsteps : StepsOk P p) (hrefl : ∀ s, R s s)
    (htrans : ∀ s s' s'', R s s' → R s' s'' → R s s'')
    (hstep : ∀ label run choice s, P label run → R s (run choice s)) :
    Finishes enabled (fun value s' => post value s' ∧ R s s') p s := by
  unfold Finishes StepsOk at *
  generalize p.run = p at *
  induction p generalizing s with
  | done result =>
    obtain ⟨value, hvalue, hpost⟩ := hp
    exact ⟨value, hvalue, hpost, hrefl s⟩
  | step label run next ih =>
    intro s' hrely hinv choice henabled
    cases hrely
    refine ⟨trivial, trivial, ?_⟩
    refine (ih choice s (hp s rfl hinv choice henabled).2.2 (hsteps.2 choice s)).mono ?_
    rintro result s'' ⟨value, hvalue, hpost, hR⟩
    exact ⟨value, hvalue, hpost, htrans _ _ _ (hstep label run choice s hsteps.1) hR⟩

theorem Finishes.eval (hp : Finishes enabled post p s) (oracle : ι → γ)
    (henabled : ∀ label s, enabled label (oracle label) s) :
    ∃ value, (p.run.eval oracle s).2 = .ok value ∧ post value (p.run.eval oracle s).1 :=
  (Keeps.eval (fun _ _ => rfl) hp trivial oracle henabled).2

end

end Program

end Nodra.Interleave
