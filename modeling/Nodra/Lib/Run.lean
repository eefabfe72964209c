import Mathlib

/-! Runs of a step relation, and the rule that carries an invariant along one. -/
namespace Nodra.Run
open Relation

variable {σ : Type} {Step : σ → σ → Prop}

theorem invariant {Inv : σ → Prop} (hstep : ∀ s s', Step s s' → Inv s → Inv s') {s s' : σ}
    (hrun : ReflTransGen Step s s') (hs : Inv s) : Inv s' := by
  induction hrun with
  | refl => exact hs
  | tail _ hlast ih => exact hstep _ _ hlast ih

end Nodra.Run
