import Mathlib

/-! Values with a revision that every write counts up, so that whoever saw a revision that is
still there saw the value that is still there. -/
namespace Nodra

structure Stamped (α : Type) where
  value : α
  revision : Nat

namespace Stamped

variable {α : Type}

def write (now : Stamped α) (value : α) : Stamped α := ⟨value, now.revision + 1⟩

def applyAll (start : Stamped α) (fns : List (α → α)) : Stamped α :=
  fns.foldl (fun now fn => now.write (fn now.value)) start

theorem applyAll_snoc (start : Stamped α) (fns : List (α → α)) (fn : α → α) :
    start.applyAll (fns ++ [fn]) = (start.applyAll fns).write (fn (start.applyAll fns).value) := by
  simp [applyAll]

theorem applyAll_eq (start : Stamped α) (fns : List (α → α)) :
    start.applyAll fns = ⟨fns.foldl (fun value fn => fn value) start.value, start.revision + fns.length⟩ := by
  induction fns generalizing start with
  | nil => rfl
  | cons fn fns ih =>
    rw [show start.applyAll (fn :: fns) = (start.write (fn start.value)).applyAll fns from rfl, ih, write,
      List.length_cons, List.foldl_cons, Nat.add_assoc, Nat.add_comm 1]

def Current (seen now : Stamped α) : Prop :=
  seen.revision ≤ now.revision ∧ (seen.revision = now.revision → seen = now)

theorem Current.refl (now : Stamped α) : Current now now := ⟨Nat.le_refl _, fun _ => rfl⟩

theorem Current.write {seen now : Stamped α} (h : Current seen now) (value : α) :
    Current seen (now.write value) := by
  have hle := h.1
  constructor
  · simp only [Stamped.write]
    omega
  · intro heq
    simp only [Stamped.write] at heq
    omega

end Stamped

end Nodra
