import Mathlib

/-! Lists handed out page by page: each page comes with a cursor that says where the next one
begins, until one comes without. -/
namespace Nodra.Paging
open List

variable {α κ : Type}

/-- The pages from a cursor on, when every cursor that comes with a page is asked for. -/
inductive Follows (query : κ → List α × Option κ) : κ → List (List α) → Prop where
  | last {cursor : κ} (h : (query cursor).2 = none) : Follows query cursor [(query cursor).1]
  | more {cursor next : κ} {pages : List (List α)} (h : (query cursor).2 = some next) :
      Follows query next pages → Follows query cursor ((query cursor).1 :: pages)

/-- A query that hands out the next `limit` of what is left at its cursor, and one that points
behind them while there are more, is at its end after finitely many pages. -/
theorem exists_follows (Left : κ → List α → Prop) {query : κ → List α × Option κ} {limit : Nat}
    (hpos : 0 < limit) (hpage : ∀ cursor rest, Left cursor rest → (query cursor).1 = rest.take limit)
    (hlast : ∀ cursor rest, Left cursor rest → rest.length ≤ limit → (query cursor).2 = none)
    (hmore : ∀ cursor rest, Left cursor rest → limit < rest.length →
      ∃ next, (query cursor).2 = some next ∧ Left next (rest.drop limit))
    {cursor : κ} {rest : List α} (h : Left cursor rest) :
    ∃ pages, Follows query cursor pages ∧ pages.flatten = rest := by
  induction hn : rest.length using Nat.strong_induction_on generalizing cursor rest with
  | _ n ih =>
    by_cases hlen : rest.length ≤ limit
    · refine ⟨_, .last (hlast cursor rest h hlen), ?_⟩
      simp [hpage cursor rest h, take_of_length_le hlen]
    · obtain ⟨next, hnext, hleft⟩ := hmore cursor rest h (Nat.lt_of_not_le hlen)
      obtain ⟨pages, hpages, hflat⟩ := ih (rest.drop limit).length (by rw [length_drop]; omega) hleft rfl
      refine ⟨_, .more hnext hpages, ?_⟩
      rw [flatten_cons, hpage cursor rest h, hflat, take_append_drop]

theorem dropWhile_of_pairwise {r : α → α → Prop} [DecidableRel r] (hasymm : ∀ a b, r a b → ¬ r b a)
    {front back : List α} {x : α} (h : (front ++ x :: back).Pairwise r) :
    (front ++ x :: back).dropWhile (fun a => !decide (r x a)) = back := by
  rw [pairwise_append, pairwise_cons] at h
  obtain ⟨-, ⟨hback, -⟩, hfront⟩ := h
  have hskip : ∀ a ∈ front ++ [x], (!decide (r x a)) = true := by
    intro a ha
    rw [Bool.not_eq_true', decide_eq_false_iff_not]
    rcases mem_append.mp ha with ha | ha
    · exact hasymm a x (hfront a ha x mem_cons_self)
    · rw [mem_singleton.mp ha]
      exact fun hself => hasymm x x hself hself
  rw [append_cons, dropWhile_append_of_pos hskip]
  cases back with
  | nil => rfl
  | cons b back => simp [hback b mem_cons_self]

end Nodra.Paging
