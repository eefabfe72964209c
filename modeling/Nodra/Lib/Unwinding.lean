import Mathlib

/-! Two runs of one machine with the same visible inputs.  They stay related, if a hidden input
keeps the relation on its own side and a visible one keeps it when both make it. -/
namespace Nodra.Unwinding
open List

variable {σ α : Type}

def Along (step : σ → α → σ) (ok : σ → α → Prop) : σ → List α → Prop
  | _, [] => True
  | c, a :: rest => ok c a ∧ Along step ok (step c a) rest

instance instDecidableAlong (step : σ → α → σ) (ok : σ → α → Prop) [∀ c a, Decidable (ok c a)] (c : σ) :
    (xs : List α) → Decidable (Along step ok c xs)
  | [] => .isTrue trivial
  | a :: rest =>
    have := instDecidableAlong step ok (step c a) rest
    inferInstanceAs (Decidable (ok c a ∧ Along step ok (step c a) rest))

structure Unwinds (step : σ → α → σ) (ok : σ → α → Prop) (visible : α → Bool) (rel : σ → σ → Prop) :
    Prop where
  symm : ∀ {c d}, rel c d → rel d c
  hidden : ∀ {c d a}, rel c d → ok c a → visible a = false → rel (step c a) d
  visible : ∀ {c d a}, rel c d → ok c a → ok d a → visible a = true → rel (step c a) (step d a)

variable {step : σ → α → σ} {ok ok' : σ → α → Prop} {visible : α → Bool} {rel : σ → σ → Prop} {c d : σ}

theorem Along.imp (xs : List α) (h : Along step ok c xs) (h' : ∀ a ∈ xs, ∀ c, ok c a → ok' c a) :
    Along step ok' c xs := by
  induction xs generalizing c with
  | nil => trivial
  | cons a rest ih =>
    exact ⟨h' a mem_cons_self c h.1, ih h.2 fun b hb => h' b (mem_cons_of_mem a hb)⟩

theorem Along.of_append {xs ys : List α} (h : Along step ok c (xs ++ ys)) :
    Along step ok c xs ∧ Along step ok (xs.foldl step c) ys := by
  induction xs generalizing c with
  | nil => exact ⟨trivial, h⟩
  | cons a rest ih => exact ⟨⟨h.1, (ih h.2).1⟩, (ih h.2).2⟩

theorem Unwinds.run_hidden (h : Unwinds step ok visible rel) {xs : List α} (hrel : rel c d)
    (hxs : Along step ok c xs) (hall : ∀ a ∈ xs, visible a = false) : rel (xs.foldl step c) d := by
  induction xs generalizing c with
  | nil => exact hrel
  | cons a rest ih =>
    have hnext := h.hidden hrel hxs.1 (hall a mem_cons_self)
    exact ih hnext hxs.2 fun b hb => hall b (mem_cons_of_mem a hb)

theorem Unwinds.run (h : Unwinds step ok visible rel) {xs ys : List α}
    (hsame : xs.filter visible = ys.filter visible) (hrel : rel c d) (hxs : Along step ok c xs)
    (hys : Along step ok d ys) : rel (xs.foldl step c) (ys.foldl step d) := by
  induction xs generalizing c d ys with
  | nil =>
    have hall : ∀ a ∈ ys, visible a = false := by
      simpa [filter_eq_nil_iff] using hsame.symm
    exact h.symm (h.run_hidden (h.symm hrel) hys hall)
  | cons a rest ih =>
    cases hvisible : visible a with
    | false =>
      rw [filter_cons_of_neg (by simp [hvisible])] at hsame
      exact ih hsame (h.hidden hrel hxs.1 hvisible) hxs.2 hys
    | true =>
      -- the other run makes the same input, after some that are hidden
      rw [filter_cons_of_pos hvisible] at hsame
      obtain ⟨before, after, rfl, hbefore, -, hafter⟩ := filter_eq_cons_iff.mp hsame.symm
      obtain ⟨hys, hsecond⟩ := hys.of_append
      have hready := h.run_hidden (h.symm hrel) hys fun b hb => by simpa using hbefore b hb
      rw [foldl_append, foldl_cons, foldl_cons]
      exact ih hafter.symm (h.visible (h.symm hready) hxs.1 hsecond.1 hvisible) hxs.2 hsecond.2

end Nodra.Unwinding
