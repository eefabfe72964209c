import Nodra.Lib.OrderedMap
import Nodra.Lib.Program
import Nodra.Lib.Stamped
import Nodra.Model.Types

/-! Updates of one row in Postgres mode.  `UpdateTwin` and `occDoc` read a document with its
revision, apply a closure, and write the result where the revision is still the same; they
try again where it is not.  A step is one SQL statement. -/
namespace Nodra.Store.Postgres
open Model Interleave Program List Option OrderedMap

section

inductive Outcome where
  | nil
  | notExist
  | conflict
  | failed (err : String)
deriving DecidableEq

structure Table (T : Type) where
  rows : OrderedMap String (Stamped T) := .empty
  history : List ((T → T) × Outcome) := []

inductive Point (T : Type) where
  | select
  | insert
  | update
  | returned (fn : T → T) (outcome : Outcome)

structure Choice where
  error : Option String := none
deriving Inhabited

abbrev Proc (T : Type) := Program (Point T) (Table T) Choice

variable {T : Type}

def Table.select (id : String) (choice : Choice) (s : Table T) : Except String (Option (Stamped T)) :=
  match choice.error with
  | some err => .error err
  | none => .ok (s.rows.get? id)

/-- `INSERT … ON CONFLICT DO NOTHING` with revision 1, and the number of rows it affects. -/
def Table.insert (key : String) (doc : T) (choice : Choice) (s : Table T) : Table T × Except String Nat :=
  match choice.error, s.rows.get? key with
  | some err, _ => (s, .error err)
  | none, some _ => (s, .ok 0)
  | none, none => ({ s with rows := s.rows.put key ⟨doc, 1⟩ }, .ok 1)

/-- `UPDATE … SET revision = revision + 1 WHERE id = … AND revision = …`. -/
def Table.update (id : String) (rev : Nat) (doc : T) (choice : Choice) (s : Table T) :
    Table T × Except String Nat :=
  match choice.error, s.rows.get? id with
  | some err, _ => (s, .error err)
  | none, none => (s, .ok 0)
  | none, some row =>
    if row.revision = rev then ({ s with rows := s.rows.put id (row.write doc) }, .ok 1) else (s, .ok 0)

def select (id : String) : Proc T (Except String (Option (Stamped T))) :=
  .access .select fun choice s => (s, s.select id choice)

def insert (key : String) (doc : T) : Proc T (Except String Nat) := .access .insert (Table.insert key doc)

def updateRevision (id : String) (rev : Nat) (doc : T) : Proc T (Except String Nat) :=
  .access .update (Table.update id rev doc)

def settle (retry : Proc T Outcome) : Except String Nat → Proc T Outcome
  | .error err => pure (.failed err)
  | .ok affected => if affected = 1 then pure .nil else retry

/-- What follows the `SELECT`.  Where there is no row, one is made of `blank`, under the key
that the document then has; without a `blank` it is an error. -/
def apply (key : T → String) (blank : Option T) (id : String) (fn : T → T) (retry : Proc T Outcome) :
    Except String (Option (Stamped T)) → Proc T Outcome
  | .error err => pure (.failed err)
  | .ok (some row) => updateRevision id row.revision (fn row.value) >>= settle retry
  | .ok none =>
    match blank with
    | none => pure .notExist
    | some doc => insert (key (fn doc)) (fn doc) >>= settle retry

def attempts (key : T → String) (blank : Option T) (id : String) (fn : T → T) : Nat → Proc T Outcome
  | 0 => pure .conflict
  | n + 1 => select id >>= apply key blank id fn (attempts key blank id fn n)

def occRetries : Nat := 8

def applied (deviceID : String) (fn : Twin → Twin) (v : Twin) : Twin :=
  if (fn v).deviceID = "" then { fn v with deviceID } else fn v

def updateTwin (deviceID : String) (fn : Twin → Twin) : Proc Twin Outcome :=
  attempts Twin.deviceID (some { deviceID }) deviceID (applied deviceID fn) occRetries

def occDoc (id : String) (fn : T → T) : Proc T Outcome := attempts (fun _ => id) none id fn occRetries

def call (fn : T → T) (update : Proc T Outcome) : Proc T Unit := do
  let outcome ← update
  .access (.returned fn outcome) fun _ s => ({ s with history := s.history ++ [(fn, outcome)] }, ())

def callSystem (kind : (T → T) → Proc T Outcome → Prop) : System (Table T) (Proc T Unit) Choice :=
  system fun t => ∃ fn update, kind fn update ∧ t = call fn update

def Table.succeeded (s : Table T) : List (T → T) :=
  s.history.filterMap fun entry => if entry.2 = .nil then some entry.1 else none

end

section

variable {T : Type} {key : T → String} {blank : Option T} {id : String} {first : Option (Stamped T)}
  {fn : T → T} {s s' : Table T} {t : Proc T Unit} {order : List (T → T)}

/-- What the functions are applied to: the first row, or a blank one. -/
def origin (blank : Option T) (first : Option (Stamped T)) : Option (Stamped T) :=
  first.or (blank.map fun doc => ⟨doc, 0⟩)

variable {doc : T} {now : Stamped T} {t' : Proc T Unit}

theorem origin_eq_some {start : Stamped T} :
    start ∈ origin (some doc) first ↔ first.getD ⟨doc, 0⟩ = start := by
  cases first <;> simp [origin]

def Ordered (blank : Option T) (first row : Option (Stamped T)) (order : List (T → T)) : Prop :=
  match row with
  | some now => (∃ start ∈ origin blank first, now = start.applyAll order) ∧ (first = none → order ≠ [])
  | none => first = none ∧ order = []

def KeepsKey (key : T → String) (blank : Option T) (id : String) (first : Option (Stamped T)) (fn : T → T) : Prop :=
  first = none → ∀ doc ∈ blank, key (fn doc) = id

inductive Form (key : T → String) (blank : Option T) (id : String) (first : Option (Stamped T)) (s : Table T) :
    Proc T Unit → Prop where
  | trying (fn : T → T) (hkeeps : KeepsKey key blank id first fn) (n : Nat) :
      Form key blank id first s (call fn (attempts key blank id fn n))
  | inserting (fn : T → T) (hkeeps : KeepsKey key blank id first fn) (n : Nat) (doc : T) (hdoc : doc ∈ blank)
      (hfirst : first = none) : Form key blank id first s
        (call fn (insert (key (fn doc)) (fn doc) >>= settle (attempts key blank id fn n)))
  | updating (fn : T → T) (hkeeps : KeepsKey key blank id first fn) (n : Nat) (seen now : Stamped T)
      (hnow : now ∈ s.rows.get? id) (hseen : seen.Current now) : Form key blank id first s
        (call fn (updateRevision id seen.revision (fn seen.value) >>= settle (attempts key blank id fn n)))
  | returning (fn : T → T) (outcome : Outcome) : Form key blank id first s (call fn (pure outcome))
  | ended : Form key blank id first s (.done ())

def Point.success : Point T → Multiset (T → T)
  | .returned fn .nil => {fn}
  | _ => 0

def pending (t : Proc T Unit) : Multiset (T → T) := (t.label?.map Point.success).getD 0

def Balanced (order : List (T → T)) (s : Table T) (pool : Multiset (Proc T Unit)) : Prop :=
  (order : Multiset (T → T)) = s.succeeded + pool.bind pending

def Serialized (key : T → String) (blank : Option T) (id : String) (first : Option (Stamped T))
    (c : Config (Table T) (Proc T Unit)) : Prop :=
  (∃ order, Balanced order c.shared c.pool ∧ Ordered blank first (c.shared.rows.get? id) order) ∧
    ∀ t ∈ c.pool, Form key blank id first c.shared t

theorem pending_trying (n : Nat) : pending (call fn (attempts key blank id fn n)) = 0 := by
  cases n <;> rfl

theorem pending_settle (update : Proc T (Except String Nat)) (retry : Proc T Outcome)
    (h : update.label? = some .insert ∨ update.label? = some .update) :
    pending (call fn (update >>= settle retry)) = 0 := by
  cases update with
  | done value => rcases h with h | h <;> cases h
  | step label run next => rcases h with h | h <;> cases h <;> rfl

theorem Form.of_rows_eq (h : Form key blank id first s t) (hrows : s'.rows = s.rows) :
    Form key blank id first s' t := by
  cases h with
  | trying fn hkeeps n => exact .trying fn hkeeps n
  | inserting fn hkeeps n doc hdoc hfirst => exact .inserting fn hkeeps n doc hdoc hfirst
  | updating fn hkeeps n seen now hnow hseen => exact .updating fn hkeeps n seen now (hrows ▸ hnow) hseen
  | returning fn outcome => exact .returning fn outcome
  | ended => exact .ended

theorem Form.of_write (h : Form key blank id first s t) (doc : T)
    (hnow : ∀ old ∈ s.rows.get? id, now = old.write doc) (hrow : s'.rows.get? id = some now) :
    Form key blank id first s' t := by
  cases h with
  | trying fn hkeeps n => exact .trying fn hkeeps n
  | inserting fn hkeeps n doc hdoc hfirst => exact .inserting fn hkeeps n doc hdoc hfirst
  | updating fn hkeeps n seen old hold hseen =>
    refine .updating fn hkeeps n seen now hrow ?_
    rw [hnow old hold]
    exact hseen.write doc
  | returning fn outcome => exact .returning fn outcome
  | ended => exact .ended

inductive Turn (key : T → String) (blank : Option T) (id : String) (first : Option (Stamped T)) (s : Table T)
    (t : Proc T Unit) : Table T × List (Proc T Unit) → Prop where
  | quiet (t' : Proc T Unit) (hform : Form key blank id first s t') (hpending : pending t = 0)
      (hpending' : pending t' = 0) : Turn key blank id first s t (s, [t'])
  | create (fn : T → T) (doc : T) (hdoc : doc ∈ blank) (hmissing : s.rows.get? id = none)
      (hpending : pending t = 0) :
      Turn key blank id first s t ({ s with rows := s.rows.put id ⟨fn doc, 1⟩ }, [call fn (pure .nil)])
  | write (fn : T → T) (now : Stamped T) (hnow : now ∈ s.rows.get? id) (hpending : pending t = 0) :
      Turn key blank id first s t
        ({ s with rows := s.rows.put id (now.write (fn now.value)) }, [call fn (pure .nil)])
  | returned (fn : T → T) (outcome : Outcome) (ht : t = call fn (pure outcome)) :
      Turn key blank id first s t ({ s with history := s.history ++ [(fn, outcome)] }, [.done ()])
  | ended (ht : t = .done ()) : Turn key blank id first s t (s, [])

theorem turn_settle {update : Choice → Table T → Table T × Except String Nat} {retry : Proc T Outcome}
    {choice : Choice} (hpending : pending t = 0) (hretry : Form key blank id first s (call fn retry))
    (hpending' : pending (call fn retry) = 0)
    (h : (∃ err, update choice s = (s, .error err)) ∨ update choice s = (s, .ok 0) ∨
      ∃ s', update choice s = (s', .ok 1) ∧ Turn key blank id first s t (s', [call fn (pure .nil)])) :
    Turn key blank id first s t ((update choice s).1, [call fn (settle retry (update choice s).2)]) := by
  rcases h with ⟨err, h⟩ | h | ⟨s', h, hturn⟩
  · rw [h]
    exact .quiet _ (.returning fn (.failed err)) hpending rfl
  · rw [h]
    exact .quiet _ hretry hpending hpending'
  · rw [h]
    exact hturn

theorem turn_inserting (hkeeps : KeepsKey key blank id first fn) (n : Nat) (hdoc : doc ∈ blank)
    (hfirst : first = none) (choice : Choice) :
    Turn key blank id first s (call fn (insert (key (fn doc)) (fn doc) >>= settle (attempts key blank id fn n)))
      (next choice s (call fn (insert (key (fn doc)) (fn doc) >>= settle (attempts key blank id fn n)))) := by
  have hpending := @pending_settle T fn (insert (key (fn doc)) (fn doc)) (attempts key blank id fn n) (.inl rfl)
  refine turn_settle hpending (.trying fn hkeeps n) (pending_trying n) ?_
  have hkey : key (fn doc) = id := hkeeps hfirst doc hdoc
  rw [hkey] at hpending ⊢
  unfold Table.insert
  cases choice.error with
  | some err => exact .inl ⟨err, rfl⟩
  | none =>
    cases hrow : s.rows.get? id with
    | some row => exact .inr (.inl rfl)
    | none => exact .inr (.inr ⟨_, rfl, .create fn doc hdoc hrow hpending⟩)

theorem turn_updating (hkeeps : KeepsKey key blank id first fn) (n : Nat) {seen : Stamped T}
    (hnow : now ∈ s.rows.get? id) (hseen : seen.Current now) (choice : Choice) :
    Turn key blank id first s
      (call fn (updateRevision id seen.revision (fn seen.value) >>= settle (attempts key blank id fn n)))
      (next choice s
        (call fn (updateRevision id seen.revision (fn seen.value) >>= settle (attempts key blank id fn n)))) := by
  have hpending := @pending_settle T fn (updateRevision id seen.revision (fn seen.value))
    (attempts key blank id fn n) (.inr rfl)
  refine turn_settle hpending (.trying fn hkeeps n) (pending_trying n) ?_
  unfold Table.update
  rw [mem_def.mp hnow]
  cases choice.error with
  | some err => exact .inl ⟨err, rfl⟩
  | none =>
    by_cases hrev : now.revision = seen.revision
    · -- the revision is the one that was seen, and so is the document
      have hsame : seen = now := hseen.2 hrev.symm
      subst hsame
      simp only [if_true]
      exact .inr (.inr ⟨_, rfl, .write fn seen hnow hpending⟩)
    · simp only [if_neg hrev]
      exact .inr (.inl trivial)

theorem turn_trying (hkeeps : KeepsKey key blank id first fn) (n : Nat)
    (hmissing : s.rows.get? id = none → first = none) (choice : Choice) :
    Turn key blank id first s (call fn (attempts key blank id fn n))
      (next choice s (call fn (attempts key blank id fn n))) := by
  cases n with
  | zero => exact .returned fn .conflict rfl
  | succ n =>
    have hpending : pending (call fn (attempts key blank id fn (n + 1))) = 0 := pending_trying (n + 1)
    change Turn key blank id first s (call fn (attempts key blank id fn (n + 1)))
      (s, [call fn (apply key blank id fn (attempts key blank id fn n) (s.select id choice))])
    unfold Table.select
    cases choice.error with
    | some err => exact .quiet _ (.returning fn (.failed err)) hpending rfl
    | none =>
      cases hrow : s.rows.get? id with
      | some row =>
        refine .quiet _ (.updating fn hkeeps n row row hrow (.refl row)) hpending ?_
        exact pending_settle _ _ (.inr rfl)
      | none =>
        cases hblank : blank with
        | none => exact .quiet _ (.returning fn .notExist) (hblank ▸ hpending) rfl
        | some doc =>
          subst hblank
          refine .quiet _ (.inserting fn hkeeps n doc rfl (hmissing hrow)) hpending ?_
          exact pending_settle _ _ (.inl rfl)

theorem Form.turn (h : Form key blank id first s t) (hmissing : s.rows.get? id = none → first = none)
    (choice : Choice) : Turn key blank id first s t (next choice s t) := by
  cases h with
  | trying fn hkeeps n => exact turn_trying hkeeps n hmissing choice
  | inserting fn hkeeps n doc hdoc hfirst => exact turn_inserting hkeeps n hdoc hfirst choice
  | updating fn hkeeps n seen now hnow hseen => exact turn_updating hkeeps n hnow hseen choice
  | returning fn outcome => exact .returned fn outcome rfl
  | ended => exact .ended rfl

variable {rest : Multiset (Proc T Unit)}

theorem Ordered.create (h : Ordered blank first none order) (hdoc : doc ∈ blank) (fn : T → T) :
    Ordered blank first (some ⟨fn doc, 1⟩) (order ++ [fn]) := by
  obtain ⟨rfl, rfl⟩ := h
  refine ⟨⟨⟨doc, 0⟩, ?_, rfl⟩, fun _ => cons_ne_nil _ _⟩
  rw [origin, mem_def.mp hdoc]
  rfl

theorem Ordered.write (h : Ordered blank first (some now) order) (fn : T → T) :
    Ordered blank first (some (now.write (fn now.value))) (order ++ [fn]) := by
  obtain ⟨⟨start, hstart, rfl⟩, -⟩ := h
  exact ⟨⟨start, hstart, (start.applyAll_snoc order fn).symm⟩, fun _ => by simp⟩

theorem Balanced.quiet (h : Balanced order s (t ::ₘ rest)) (hpending : pending t' = pending t) :
    Balanced order s (t' ::ₘ rest) := by
  unfold Balanced at h ⊢
  rw [h, Multiset.cons_bind, Multiset.cons_bind, hpending]

theorem Balanced.write (h : Balanced order s (t ::ₘ rest)) (hpending : pending t = 0)
    (hhistory : s'.history = s.history) (fn : T → T) :
    Balanced (order ++ [fn]) s' (call fn (pure .nil) ::ₘ rest) := by
  have hsucceeded : s'.succeeded = s.succeeded := by rw [Table.succeeded, hhistory, Table.succeeded]
  unfold Balanced at h ⊢
  rw [← Multiset.coe_add, h, hsucceeded, Multiset.cons_bind, Multiset.cons_bind, hpending, zero_add, add_assoc,
    add_comm (rest.bind pending)]
  rfl

theorem Balanced.returned {fn : T → T} {outcome : Outcome} (h : Balanced order s (call fn (pure outcome) ::ₘ rest)) :
    Balanced order { s with history := s.history ++ [(fn, outcome)] } (.done () ::ₘ rest) := by
  unfold Balanced at h ⊢
  rw [h, Multiset.cons_bind, Multiset.cons_bind, show pending (.done () : Proc T Unit) = 0 from rfl, zero_add]
  cases outcome with
  | nil =>
    have hmore : (Table.succeeded { s with history := s.history ++ [(fn, .nil)] }) = s.succeeded ++ [fn] := by
      simp [Table.succeeded]
    rw [hmore, ← Multiset.coe_add, add_assoc]
    rfl
  | notExist | conflict | failed err =>
    simp only [Table.succeeded, filterMap_append, filterMap_cons, filterMap_nil, reduceCtorEq,
      if_false, append_nil]
    exact congrArg _ (zero_add _)

theorem Balanced.ended (h : Balanced order s (.done () ::ₘ rest)) : Balanced order s rest := by
  unfold Balanced at h ⊢
  rw [h, Multiset.cons_bind]
  exact congrArg _ (zero_add _)

theorem forms_cons (ht' : Form key blank id first s' t')
    (hrest : ∀ u ∈ rest, Form key blank id first s' u) : ∀ u ∈ t' ::ₘ rest, Form key blank id first s' u := by
  intro u hu
  rcases Multiset.mem_cons.mp hu with rfl | hu
  · exact ht'
  · exact hrest u hu

theorem Serialized.move (h : Serialized key blank id first ⟨s, t ::ₘ rest⟩) (choice : Choice) :
    Serialized key blank id first ⟨(next choice s t).1, ↑(next choice s t).2 + rest⟩ := by
  obtain ⟨⟨order, hbalanced, hordered⟩, hforms⟩ := h
  have hrest : ∀ u ∈ rest, Form key blank id first s u := fun u hu => hforms u (Multiset.mem_cons_of_mem hu)
  have hmissing : s.rows.get? id = none → first = none := by
    intro hnone
    dsimp only at hordered
    rw [hnone] at hordered
    exact hordered.1
  have hturn := (hforms t (Multiset.mem_cons_self t rest)).turn hmissing choice
  generalize next choice s t = moved at hturn ⊢
  cases hturn with
  | quiet t' hform hpending hpending' =>
    exact ⟨⟨order, hbalanced.quiet (hpending'.trans hpending.symm), hordered⟩, forms_cons hform hrest⟩
  | create fn doc hdoc hnone hpending =>
    refine ⟨⟨order ++ [fn], hbalanced.write hpending rfl fn, ?_⟩, forms_cons (.returning fn .nil) fun u hu => ?_⟩
    · dsimp only at hordered ⊢
      rw [get?_put_self]
      rw [hnone] at hordered
      exact hordered.create hdoc fn
    · refine (hrest u hu).of_write (fn doc) ?_ (get?_put_self _ _ _)
      rw [hnone]
      exact nofun
  | write fn now hnow hpending =>
    refine ⟨⟨order ++ [fn], hbalanced.write hpending rfl fn, ?_⟩, forms_cons (.returning fn .nil) fun u hu => ?_⟩
    · dsimp only at hordered ⊢
      rw [get?_put_self]
      rw [mem_def.mp hnow] at hordered
      exact hordered.write fn
    · refine (hrest u hu).of_write (fn now.value) ?_ (get?_put_self _ _ _)
      intro old hold
      rw [mem_unique hold hnow]
  | returned fn outcome ht =>
    subst ht
    exact ⟨⟨order, hbalanced.returned, hordered⟩, forms_cons .ended fun u hu => (hrest u hu).of_rows_eq rfl⟩
  | ended ht =>
    subst ht
    refine ⟨⟨order, ?_, hordered⟩, ?_⟩
    · rw [Multiset.coe_nil, Multiset.zero_add]
      exact hbalanced.ended
    · simpa using hrest

theorem Serialized.start {pool : Multiset (Proc T Unit)} (h : Serialized key blank id first ⟨s, pool⟩)
    (hkeeps : KeepsKey key blank id first fn) (n : Nat) :
    Serialized key blank id first ⟨s, call fn (attempts key blank id fn n) ::ₘ pool⟩ := by
  obtain ⟨⟨order, hbalanced, hordered⟩, hforms⟩ := h
  refine ⟨⟨order, ?_, hordered⟩, forms_cons (.trying fn hkeeps n) hforms⟩
  unfold Balanced at hbalanced ⊢
  rw [hbalanced, Multiset.cons_bind, pending_trying, zero_add]

theorem serialized_of_run {kind : (T → T) → Proc T Outcome → Prop}
    (hkind : ∀ fn update, kind fn update → KeepsKey key blank id first fn ∧
      ∃ n, update = attempts key blank id fn n)
    {c c' : Config (Table T) (Proc T Unit)} (hrun : (callSystem kind).Run c c')
    (h : Serialized key blank id first c) : Serialized key blank id first c' := by
  induction hrun with
  | refl => exact h
  | tail _ hstep ih =>
    cases hstep with
    | start t hstart =>
      obtain ⟨fn, update, hcall, rfl⟩ := hstart
      obtain ⟨hkeeps, n, rfl⟩ := hkind fn update hcall
      exact ih.start hkeeps n
    | move choice _ => exact ih.move choice

end

section

variable {T : Type}

theorem exists_order_of_run {key : T → String} {blank : Option T} {id : String}
    {kind : (T → T) → Proc T Outcome → Prop} {s₀ s : Table T} (hhistory : s₀.history = [])
    (hkind : ∀ fn update, kind fn update → KeepsKey key blank id (s₀.rows.get? id) fn ∧
      ∃ n, update = attempts key blank id fn n)
    (hrun : (callSystem kind).Run ⟨s₀, 0⟩ ⟨s, 0⟩) :
    ∃ order, order.Perm s.succeeded ∧ Ordered blank (s₀.rows.get? id) (s.rows.get? id) order := by
  have hstart : Serialized key blank id (s₀.rows.get? id) ⟨s₀, 0⟩ := by
    refine ⟨⟨[], ?_, ?_⟩, by simp⟩
    · simp [Balanced, Table.succeeded, hhistory]
    · cases hrow : s₀.rows.get? id with
      | none => exact ⟨rfl, rfl⟩
      | some row => exact ⟨⟨row, rfl, rfl⟩, (by simp)⟩
  obtain ⟨⟨order, hbalanced, hordered⟩, -⟩ := serialized_of_run hkind hrun hstart
  refine ⟨order, Multiset.coe_eq_coe.mp ?_, hordered⟩
  rw [hbalanced, Multiset.zero_bind, Multiset.add_zero]

/-- A call of `UpdateTwin`; a closure that is applied to a new twin leaves it the device id, or none. -/
def TwinCall (deviceID : String) (s₀ : Table Twin) (fn : Twin → Twin) (update : Proc Twin Outcome) : Prop :=
  ∃ closure, fn = applied deviceID closure ∧ update = updateTwin deviceID closure ∧
    (s₀.rows.get? deviceID = none →
      (closure { deviceID }).deviceID = deviceID ∨ (closure { deviceID }).deviceID = "")

def DocCall (id : String) (fn : T → T) (update : Proc T Outcome) : Prop := update = occDoc id fn

/-- The functions applied one after the other, with a revision for each. -/
def serially (start : Stamped T) (order : List (T → T)) : Stamped T :=
  ⟨order.foldl (fun doc fn => fn doc) start.value, start.revision + order.length⟩

theorem twinCall_attempts {deviceID : String} {s₀ : Table Twin} (fn : Twin → Twin) (update : Proc Twin Outcome)
    (h : TwinCall deviceID s₀ fn update) :
    KeepsKey Twin.deviceID (some { deviceID }) deviceID (s₀.rows.get? deviceID) fn ∧
      ∃ n, update = attempts Twin.deviceID (some { deviceID }) deviceID fn n := by
  obtain ⟨closure, rfl, rfl, hkeeps⟩ := h
  refine ⟨?_, occRetries, rfl⟩
  rintro hnone _ ⟨⟩
  unfold applied
  rcases hkeeps hnone with hkept | hempty
  · split <;> simp [hkept]
  · rw [if_pos hempty]

theorem docCall_attempts {id : String} {first : Option (Stamped T)} (fn : T → T) (update : Proc T Outcome)
    (h : DocCall id fn update) :
    KeepsKey (fun _ => id) none id first fn ∧ ∃ n, update = attempts (fun _ => id) none id fn n :=
  ⟨nofun, occRetries, h⟩

/-- When all calls have returned, the row is what the functions of those that returned nil make of
it in some order, each applied once, and its revision has grown by their number. -/
theorem updates_serialize (U : Type) (id : String) :
    (∀ s₀ s : Table Twin, s₀.history = [] → (callSystem (TwinCall id s₀)).Run ⟨s₀, 0⟩ ⟨s, 0⟩ →
      ∃ order : List (Twin → Twin), order.Perm s.succeeded ∧
        s.rows.get? id =
          if s₀.rows.get? id = none ∧ order = [] then none
          else some (serially ((s₀.rows.get? id).getD ⟨{ deviceID := id }, 0⟩) order)) ∧
    ∀ s₀ s : Table U, s₀.history = [] →
      (callSystem (DocCall id)).Run ⟨s₀, 0⟩ ⟨s, 0⟩ →
        ∃ order : List (U → U), order.Perm s.succeeded ∧ (s₀.rows.get? id = none → order = []) ∧
          s.rows.get? id = (s₀.rows.get? id).map (serially · order) := by
  constructor
  · intro s₀ s hhistory hrun
    obtain ⟨order, hperm, hordered⟩ := exists_order_of_run hhistory twinCall_attempts hrun
    refine ⟨order, hperm, ?_⟩
    cases hrow : s.rows.get? id with
    | none =>
      rw [hrow] at hordered
      obtain ⟨hfirst, hempty⟩ := hordered
      rw [if_pos ⟨hfirst, hempty⟩]
    | some now =>
      rw [hrow] at hordered
      obtain ⟨⟨start, hstart, rfl⟩, hsome⟩ := hordered
      rw [if_neg fun h => hsome h.1 h.2, start.applyAll_eq, ← origin_eq_some.mp hstart]
      rfl
  · intro s₀ s hhistory hrun
    obtain ⟨order, hperm, hordered⟩ := exists_order_of_run hhistory docCall_attempts hrun
    refine ⟨order, hperm, ?_⟩
    cases hfirst : s₀.rows.get? id with
    | none =>
      rw [hfirst] at hordered
      cases hrow : s.rows.get? id with
      | none =>
        rw [hrow] at hordered
        exact ⟨fun _ => hordered.2, rfl⟩
      | some now =>
        rw [hrow] at hordered
        obtain ⟨⟨start, hstart, -⟩, -⟩ := hordered
        cases hstart
    | some row =>
      rw [hfirst] at hordered
      refine ⟨nofun, ?_⟩
      cases hrow : s.rows.get? id with
      | none =>
        rw [hrow] at hordered
        cases hordered.1
      | some now =>
        rw [hrow] at hordered
        obtain ⟨⟨_, ⟨⟩, rfl⟩, -⟩ := hordered
        rw [Stamped.applyAll_eq]
        rfl

theorem run_call {kind : (T → T) → Proc T Outcome → Prop} {fn : T → T} {update : Proc T Outcome}
    (hkind : kind fn update) (s₀ : Table T) :
    (callSystem kind).Run ⟨s₀, 0⟩ ⟨((call fn update).eval (fun _ => {}) s₀).1, 0⟩ := by
  have hpass : (call fn update).Passes (fun _ => {}) (fun _ _ _ => True) s₀ :=
    passes_of_forall _ (fun _ _ => trivial) _ _
  exact run_alone (callSystem kind) rfl (fun _ _ _ _ => trivial) (fun _ => {}) _ ⟨fn, update, hkind, rfl⟩ s₀ hpass

def countUp (v : Twin) : Twin := { v with desiredVersion := v.desiredVersion + 1 }

/-- The first desired version of a device that has no twin yet. -/
theorem countUp_serialized :
    ∃ order : List (Twin → Twin),
      order.Perm ((call (applied "plc" countUp) (updateTwin "plc" countUp)).eval (fun _ => {}) {}).1.succeeded ∧
        ((call (applied "plc" countUp) (updateTwin "plc" countUp)).eval (fun _ => {}) {}).1.rows.get? "plc" =
          if (none : Option (Stamped Twin)) = none ∧ order = [] then none
          else some (serially ⟨{ deviceID := "plc" }, 0⟩ order) :=
  (updates_serialize Twin "plc").1 {} _ rfl (run_call ⟨countUp, rfl, rfl, fun _ => .inl rfl⟩ {})

def moveAway (v : Twin) : Twin := { v with deviceID := "other" }

/-- A closure that gives a new twin another device id: the call returns nil, and the row of its
device is not made. -/
theorem moveAway_not_serialized :
    ∃ s, (callSystem fun fn update => ∃ closure, fn = applied "plc" closure ∧ update = updateTwin "plc" closure).Run
        ⟨{}, 0⟩ ⟨s, 0⟩ ∧
      s.succeeded = [applied "plc" moveAway] ∧ s.rows.get? "plc" = none ∧
      ¬ ∃ order : List (Twin → Twin), order.Perm s.succeeded ∧
        s.rows.get? "plc" = some (serially ⟨{ deviceID := "plc" }, 0⟩ order) := by
  refine ⟨((call (applied "plc" moveAway) (updateTwin "plc" moveAway)).eval (fun _ => {}) {}).1,
    run_call ⟨moveAway, rfl, rfl⟩ {}, ?_⟩
  have hrow : ((call (applied "plc" moveAway) (updateTwin "plc" moveAway)).eval (fun _ => {}) {}).1.rows.get?
      "plc" = none := by rfl
  refine ⟨rfl, hrow, ?_⟩
  rintro ⟨order, -, heq⟩
  rw [hrow] at heq
  cases heq

end

end Nodra.Store.Postgres
