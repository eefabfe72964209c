import Mathlib

/-! Lists of records with a key that need not be unique.  Replaying a sequence of
upserts, or a sequence of replacements and removals, over its own result changes
nothing. -/
namespace Nodra.KeyedList
open List

variable {α κ : Type} [DecidableEq κ] (key : α → κ)

def replace (v : α) : List α → List α
  | [] => []
  | x :: xs => if key x = key v then v :: xs else x :: replace v xs

def upsert (v : α) : List α → List α
  | [] => [v]
  | x :: xs => if key x = key v then v :: xs else x :: upsert v xs

def remove (k : κ) (xs : List α) : List α := xs.filter fun x => key x ≠ k

def latest (k : κ) (x : α) (vs : List α) : α :=
  vs.foldl (fun current v => if key v = k then v else current) x

theorem key_latest (x : α) (vs : List α) : key (latest key (key x) x vs) = key x := by
  unfold latest
  induction vs using List.reverseRecOn with
  | nil => rfl
  | append_singleton vs v ih =>
    rw [foldl_append, foldl_cons, foldl_nil]
    split
    · assumption
    · exact ih

theorem latest_latest (k : κ) (x : α) (vs : List α) :
    latest key k (latest key k x vs) vs = latest key k x vs := by
  unfold latest
  induction vs using List.reverseRecOn generalizing x with
  | nil => rfl
  | append_singleton vs v ih =>
    simp only [foldl_append, foldl_cons, foldl_nil]
    split
    · rfl
    · exact ih x

theorem find?_replace (v : α) (k : κ) (xs : List α) :
    (replace key v xs).find? (key · = k) =
      if key v = k then (xs.find? (key · = k)).map fun _ => v else xs.find? (key · = k) := by
  induction xs with
  | nil => simp [replace]
  | cons x xs ih =>
    unfold replace
    split
    · next h => by_cases hv : key v = k <;> simp [hv, h]
    · next h =>
      by_cases hx : key x = k
      · simp [hx, show ¬ key v = k from fun hv => h (hx.trans hv.symm)]
      · simp [hx, ih]

theorem map_key_replace (v : α) (xs : List α) : (replace key v xs).map key = xs.map key := by
  induction xs with
  | nil => rfl
  | cons x xs ih =>
    unfold replace
    split
    · next h => simp [h]
    · simp [ih]

theorem find?_of_nodup {x : α} {xs : List α} (hnodup : (xs.map key).Nodup) (hx : x ∈ xs) :
    xs.find? (key · = key x) = some x := by
  induction xs with
  | nil => cases hx
  | cons y ys ih =>
    rw [map_cons, nodup_cons] at hnodup
    rcases mem_cons.mp hx with rfl | hx
    · simp
    · have hne : key y ≠ key x := fun heq => hnodup.1 (heq ▸ List.mem_map_of_mem hx)
      rw [find?_cons_of_neg (by simpa using hne)]
      exact ih hnodup.2 hx

section

theorem find?_upsert (v : α) (k : κ) (xs : List α) :
    (upsert key v xs).find? (key · = k) =
      if key v = k then some v else xs.find? (key · = k) := by
  induction xs with
  | nil =>
    unfold upsert
    by_cases hv : key v = k <;> simp [hv]
  | cons x xs ih =>
    unfold upsert
    split
    · next h =>
      -- the record it replaces has the same key
      by_cases hv : key v = k <;> simp [hv, h]
    · next h =>
      by_cases hx : key x = k
      · simp [hx, show ¬ key v = k from fun hv => h (hx.trans hv.symm)]
      · simp [hx, ih]

variable {v x : α} {xs : List α} {p : α → Bool}

theorem upsert_split (h : xs.find? (key · = key v) = some x) :
    ∃ l r, xs = l ++ x :: r ∧ upsert key v xs = l ++ v :: r := by
  induction xs with
  | nil => cases h
  | cons y xs ih =>
    by_cases hy : key y = key v
    · obtain rfl : y = x := by simpa [hy] using h
      exact ⟨[], xs, rfl, by simp [upsert, hy]⟩
    · obtain ⟨l, r, hxs, hupsert⟩ := ih (by simpa [hy] using h)
      exact ⟨y :: l, r, by rw [hxs]; rfl, by simp [upsert, hy, hupsert]⟩

theorem upsert_of_none (h : xs.find? (key · = key v) = none) :
    upsert key v xs = xs ++ [v] := by
  induction xs with
  | nil => rfl
  | cons y xs ih =>
    have hy : key y ≠ key v := by simpa using find?_eq_none.mp h y mem_cons_self
    have htail : xs.find? (key · = key v) = none := by simpa [hy] using h
    simp [upsert, hy, ih htail]

theorem replace_eq_upsert (h : (xs.find? (key · = key v)).isSome) :
    replace key v xs = upsert key v xs := by
  induction xs with
  | nil => cases h
  | cons y xs ih =>
    by_cases hy : key y = key v
    · simp [replace, upsert, hy]
    · simp [replace, upsert, hy, ih (by simpa [hy] using h)]

theorem filter_upsert_of_some_iff (h : xs.find? (key · = key v) = some x) :
    (upsert key v xs).filter p = xs.filter p ↔ v = x ∨ p x = false ∧ p v = false := by
  obtain ⟨l, r, rfl, hupsert⟩ := upsert_split key h
  rw [hupsert, filter_append, filter_append, append_cancel_left_eq]
  cases hx : p x <;> cases hv : p v
  · simp [hx, hv]
  · have hne : v ≠ x := by
      rintro rfl
      exact absurd (hx.symm.trans hv) (by decide)
    simp [hx, hv, hne]
  · have hne : v ≠ x := by
      rintro rfl
      exact absurd (hx.symm.trans hv) (by decide)
    simp [hx, hv, hne]
  · simp [hx, hv]

theorem filter_upsert_of_none_iff (h : xs.find? (key · = key v) = none) :
    (upsert key v xs).filter p = xs.filter p ↔ p v = false := by
  rw [upsert_of_none key h, filter_append]
  simp

theorem countP_upsert_of_some (h : xs.find? (key · = key v) = some x) :
    (upsert key v xs).countP p + (if p x then 1 else 0) = xs.countP p + if p v then 1 else 0 := by
  obtain ⟨l, r, rfl, hupsert⟩ := upsert_split key h
  rw [hupsert, countP_append, countP_append, countP_cons, countP_cons]
  omega

def upsertAll (xs vs : List α) : List α := vs.foldl (fun xs v => upsert key v xs) xs

theorem upsertAll_cons (x : α) (xs vs : List α) :
    upsertAll key (x :: xs) vs =
      latest key (key x) x vs :: upsertAll key xs (vs.filter fun v => key v ≠ key x) := by
  induction vs generalizing x xs with
  | nil => rfl
  | cons v vs ih =>
    have hstep : upsertAll key (x :: xs) (v :: vs) = upsertAll key (upsert key v (x :: xs)) vs := rfl
    rw [hstep, upsert]
    by_cases hv : key x = key v
    · rw [if_pos hv, ih, ← hv]
      simp [latest, hv]
    · have hv' : ¬ key v = key x := fun h => hv h.symm
      rw [if_neg hv, ih]
      simp [latest, hv', upsertAll]

theorem upsertAll_upsertAll (xs vs : List α) :
    upsertAll key (upsertAll key xs vs) vs = upsertAll key xs vs := by
  induction hn : xs.length + vs.length using Nat.strongRecOn generalizing xs vs with
  | ind n ih =>
    -- the head settles in the first pass, and the rest is a smaller instance
    have hcons (x : α) (xs vs : List α)
        (hlt : xs.length + (vs.filter fun v => key v ≠ key x).length < n) :
        upsertAll key (upsertAll key (x :: xs) vs) vs = upsertAll key (x :: xs) vs := by
      rw [upsertAll_cons, upsertAll_cons, key_latest key, latest_latest, ih _ hlt _ _ rfl]
    cases xs with
    | cons x xs =>
      have hfilter := length_filter_le (fun v => decide (key v ≠ key x)) vs
      rw [length_cons] at hn
      exact hcons x xs vs (by omega)
    | nil =>
      cases vs with
      | nil => rfl
      | cons v vs =>
        have hfilter := length_filter_le (fun w => decide (key w ≠ key v)) vs
        have hfirst : upsertAll key [] (v :: vs) = upsertAll key [v] (v :: vs) := by
          simp [upsertAll, upsert]
        rw [length_nil, length_cons] at hn
        rw [hfirst]
        refine hcons v [] (v :: vs) ?_
        rw [filter_cons_of_neg (by simp), length_nil]
        omega

end

section

inductive Edit (α κ : Type) where
  | replace (v : α)
  | remove (k : κ)

def Edit.run (xs : List α) : Edit α κ → List α
  | .replace v => KeyedList.replace key v xs
  | .remove k => KeyedList.remove key k xs

def Edit.target : Edit α κ → κ
  | .replace v => key v
  | .remove k => k

def Edit.value? : Edit α κ → Option α
  | .replace v => some v
  | .remove _ => none

def Edit.others (k : κ) (edits : List (Edit α κ)) : List (Edit α κ) :=
  edits.filter fun edit => edit.target key ≠ k

variable {k : κ} {edit : Edit α κ} {x : α}

theorem Edit.others_cons_of_eq (h : edit.target key = k)
    (edits : List (Edit α κ)) : others key k (edit :: edits) = others key k edits :=
  filter_cons_of_neg (by simp [h])

theorem Edit.others_cons_of_ne (h : edit.target key ≠ k)
    (edits : List (Edit α κ)) : others key k (edit :: edits) = edit :: others key k edits :=
  filter_cons_of_pos (by simp [h])

def editAll (xs : List α) (edits : List (Edit α κ)) : List α := edits.foldl (Edit.run key) xs

theorem remove_cons_of_eq (h : key x = k) (xs : List α) :
    remove key k (x :: xs) = remove key k xs :=
  filter_cons_of_neg (by simp [h])

theorem remove_cons_of_ne (h : key x ≠ k) (xs : List α) :
    remove key k (x :: xs) = x :: remove key k xs :=
  filter_cons_of_pos (by simp [h])

theorem remove_remove (k : κ) (xs : List α) :
    remove key k (remove key k xs) = remove key k xs := by
  simp [remove]

theorem remove_comm (k k' : κ) (xs : List α) :
    remove key k (remove key k' xs) = remove key k' (remove key k xs) := by
  simp only [remove, List.filter_filter, Bool.and_comm]

theorem remove_replace_self (v : α) (xs : List α) :
    remove key (key v) (replace key v xs) = remove key (key v) xs := by
  induction xs with
  | nil => rfl
  | cons x xs ih =>
    unfold replace
    split
    · rename_i h
      rw [remove_cons_of_eq key rfl, remove_cons_of_eq key h]
    · rename_i h
      rw [remove_cons_of_ne key h, remove_cons_of_ne key h, ih]

theorem replace_remove_self (v : α) (xs : List α) :
    replace key v (remove key (key v) xs) = remove key (key v) xs := by
  induction xs with
  | nil => rfl
  | cons x xs ih =>
    by_cases h : key x = key v
    · rw [remove_cons_of_eq key h, ih]
    · rw [remove_cons_of_ne key h, replace, if_neg h, ih]

theorem remove_replace_of_ne (k : κ) (v : α) (xs : List α) (hne : key v ≠ k) :
    remove key k (replace key v xs) = replace key v (remove key k xs) := by
  induction xs with
  | nil => rfl
  | cons x xs ih =>
    by_cases h : key x = key v
    · have hk : key x ≠ k := h ▸ hne
      rw [replace, if_pos h, remove_cons_of_ne key hne, remove_cons_of_ne key hk, replace, if_pos h]
    · rw [replace, if_neg h]
      by_cases hk : key x = k
      · rw [remove_cons_of_eq key hk, remove_cons_of_eq key hk, ih]
      · rw [remove_cons_of_ne key hk, remove_cons_of_ne key hk, replace, if_neg h, ih]

theorem editAll_remove (k : κ) (edits : List (Edit α κ)) (xs : List α)
    (h : .remove k ∈ edits) : editAll key (remove key k xs) edits = editAll key xs edits := by
  induction edits generalizing xs with
  | nil => simp at h
  | cons edit edits ih =>
    change editAll key (Edit.run key (remove key k xs) edit) edits =
      editAll key (Edit.run key xs edit) edits
    by_cases hedits : .remove k ∈ edits
    · rw [← ih (Edit.run key (remove key k xs) edit) hedits, ← ih (Edit.run key xs edit) hedits]
      congr 1
      cases edit with
      | remove k' =>
        simp only [Edit.run]
        rw [remove_comm key k k' xs, remove_comm key k k', remove_remove]
      | replace v =>
        simp only [Edit.run]
        by_cases hv : key v = k
        · subst hv
          rw [replace_remove_self, remove_remove, remove_replace_self]
        · rw [← remove_replace_of_ne key k v xs hv, remove_remove]
    · cases (mem_cons.mp h).resolve_right hedits
      simp only [Edit.run, remove_remove]

theorem editAll_cons (x : α) (xs : List α) (edits : List (Edit α κ)) (h : .remove (key x) ∉ edits) :
    editAll key (x :: xs) edits =
      latest key (key x) x (edits.filterMap Edit.value?) ::
        editAll key xs (Edit.others key (key x) edits) := by
  induction edits generalizing x xs with
  | nil => rfl
  | cons edit edits ih =>
    have hedits : .remove (key x) ∉ edits := fun hmem => h (mem_cons_of_mem _ hmem)
    change editAll key (Edit.run key (x :: xs) edit) edits = _
    cases edit with
    | remove k =>
      have hk : key x ≠ k := fun hk => h (by simp [hk])
      have hrun : Edit.run key (x :: xs) (.remove k) = x :: remove key k xs := by
        exact remove_cons_of_ne key hk xs
      rw [hrun, ih x _ hedits]
      rw [Edit.others_cons_of_ne key (show (Edit.remove k).target key ≠ key x from hk.symm)]
      rfl
    | replace v =>
      by_cases hv : key x = key v
      · have hrun : Edit.run key (x :: xs) (.replace v) = v :: xs := by
          simp [Edit.run, replace, hv]
        rw [hrun, ih v xs (hv ▸ hedits)]
        rw [Edit.others_cons_of_eq key (show (Edit.replace v).target key = key x from hv.symm)]
        simp [Edit.value?, latest, hv]
      · have hv' : ¬ key v = key x := fun h => hv h.symm
        have hrun : Edit.run key (x :: xs) (.replace v) = x :: replace key v xs := by
          simp [Edit.run, replace, hv]
        rw [hrun, ih x _ hedits]
        rw [Edit.others_cons_of_ne key (show (Edit.replace v).target key ≠ key x from hv')]
        simp [Edit.value?, latest, hv', editAll, Edit.run]

theorem editAll_editAll (xs : List α) (edits : List (Edit α κ)) :
    editAll key (editAll key xs edits) edits = editAll key xs edits := by
  induction xs generalizing edits with
  | nil =>
    have hnil (edits : List (Edit α κ)) : editAll key [] edits = [] := by
      induction edits with
      | nil => rfl
      | cons edit edits ih => cases edit <;> exact ih
    rw [hnil, hnil]
  | cons x xs ih =>
    by_cases h : .remove (key x) ∈ edits
    · rw [← editAll_remove key (key x) edits (x :: xs) h, remove_cons_of_eq key rfl,
        editAll_remove key (key x) edits xs h, ih]
    · rw [editAll_cons key x xs edits h, editAll_cons, key_latest key, latest_latest, ih]
      rwa [key_latest key]

end

end Nodra.KeyedList
