import Mathlib

/-! Finite maps that remember the order in which their keys were last put.  The
keys of a map are distinct by construction. -/
namespace Nodra
open List Option

structure OrderedMap (κ ν : Type) where
  entries : List (κ × ν)
  nodup : (entries.map Prod.fst).Nodup

namespace OrderedMap

variable {κ ν ω : Type}

variable {m m' : OrderedMap κ ν} {f : ν → Int} {key key' : κ} {value : ν}

@[ext] theorem ext (h : m.entries = m'.entries) : m = m' := by
  cases m
  cases m'
  cases h
  rfl

def empty : OrderedMap κ ν := ⟨[], nodup_nil⟩

def size (m : OrderedMap κ ν) : Nat := m.entries.length

def keys (m : OrderedMap κ ν) : List κ := m.entries.map Prod.fst

def values (m : OrderedMap κ ν) : List ν := m.entries.map Prod.snd

instance : Inhabited (OrderedMap κ ν) := ⟨empty⟩

instance [DecidableEq κ] [DecidableEq ν] : DecidableEq (OrderedMap κ ν) := fun m m' =>
  decidable_of_iff (m.entries = m'.entries) ⟨ext, fun h => h ▸ rfl⟩

def mapValues (f : ν → ω) (m : OrderedMap κ ν) : OrderedMap κ ω where
  entries := m.entries.map fun entry => (entry.1, f entry.2)
  nodup := by
    have h := m.nodup
    rwa [List.map_map]

theorem values_mapValues (f : ν → ω) (m : OrderedMap κ ν) :
    (m.mapValues f).values = m.values.map f := by
  simp [values, mapValues]

def filterValues (p : ν → Bool) (m : OrderedMap κ ν) : OrderedMap κ ν where
  entries := m.entries.filter fun entry => p entry.2
  nodup := m.nodup.sublist (filter_sublist.map _)

def total (f : ν → Int) (m : OrderedMap κ ν) : Int := (m.values.map f).sum

theorem total_eq_sum (m : OrderedMap κ ν) : m.total f = (m.entries.map fun entry => f entry.2).sum := by
  rw [total, values, List.map_map]
  rfl

theorem size_eq_total (m : OrderedMap κ ν) : (m.size : Int) = m.total fun _ => 1 := by
  rw [total_eq_sum, map_const', sum_replicate, size]
  simp

theorem total_le_of_sublist (h : m.entries.Sublist m'.entries)
    (hf : ∀ value ∈ m'.values, 0 ≤ f value) : m.total f ≤ m'.total f := by
  apply List.Sublist.sum_le_sum ((h.map Prod.snd).map f)
  intro x hx
  obtain ⟨value, hvalue, rfl⟩ := List.mem_map.mp hx
  exact hf value hvalue

variable [DecidableEq κ]

def get? (m : OrderedMap κ ν) (key : κ) : Option ν :=
  (m.entries.find? fun entry => entry.1 = key).map Prod.snd

def remove (m : OrderedMap κ ν) (key : κ) : OrderedMap κ ν where
  entries := m.entries.filter fun entry => entry.1 ≠ key
  nodup := m.nodup.sublist (filter_sublist.map _)

theorem not_mem_keys_remove (m : OrderedMap κ ν) (key : κ) : key ∉ (m.remove key).keys := by
  simp [keys, remove]

def put (m : OrderedMap κ ν) (key : κ) (value : ν) : OrderedMap κ ν where
  entries := (m.remove key).entries ++ [(key, value)]
  nodup := by
    rw [map_append, nodup_append]
    refine ⟨(m.remove key).nodup, by simp, ?_⟩
    intro a ha b hb hab
    simp only [map_cons, map_nil, mem_singleton] at hb
    rw [hab, hb] at ha
    exact not_mem_keys_remove m key ha

theorem values_put (m : OrderedMap κ ν) (key : κ) (value : ν) :
    (m.put key value).values = (m.remove key).values ++ [value] := by
  simp [values, put]

theorem values_remove_sublist (m : OrderedMap κ ν) (key : κ) :
    (m.remove key).values.Sublist m.values :=
  filter_sublist.map _

instance : Membership κ (OrderedMap κ ν) := ⟨fun m key => (m.get? key).isSome⟩

instance (m : OrderedMap κ ν) (key : κ) : Decidable (key ∈ m) :=
  inferInstanceAs (Decidable ((m.get? key).isSome = true))

theorem mem_iff_get? : key ∈ m ↔ (m.get? key).isSome := Iff.rfl

theorem get?_eq_none_iff : m.get? key = none ↔ key ∉ m := by
  rw [mem_iff_get?]
  cases m.get? key <;> simp

theorem mem_iff_keys : key ∈ m ↔ key ∈ m.keys := by
  simp [mem_iff_get?, get?, keys]

@[simp] theorem get?_empty (key : κ) : (empty : OrderedMap κ ν).get? key = none := rfl

@[simp] theorem not_mem_empty (key : κ) : key ∉ (empty : OrderedMap κ ν) := by
  simp [mem_iff_get?]

theorem get?_remove (m : OrderedMap κ ν) (key key' : κ) :
    (m.remove key).get? key' = if key' = key then none else m.get? key' := by
  simp only [get?, remove, find?_filter]
  split
  · rename_i h
    subst h
    simp
  · rename_i h
    congr 2
    funext entry
    by_cases he : entry.1 = key' <;> simp_all

theorem get?_put (m : OrderedMap κ ν) (key key' : κ) (value : ν) :
    (m.put key value).get? key' = if key' = key then some value else m.get? key' := by
  have hremove := get?_remove m key key'
  simp only [get?, put, find?_append] at hremove ⊢
  by_cases h : key' = key
  · simp only [h, if_true, map_eq_none_iff] at hremove ⊢
    simp [hremove]
  · rw [if_neg h] at hremove ⊢
    rw [← hremove]
    have hne : ¬ key = key' := fun he => h he.symm
    simp [hne]

@[simp] theorem get?_put_self (m : OrderedMap κ ν) (key : κ) (value : ν) :
    (m.put key value).get? key = some value := by
  simp [get?_put]

@[simp] theorem mem_put :
    key' ∈ m.put key value ↔ key' = key ∨ key' ∈ m := by
  simp only [mem_iff_get?, get?_put]
  split <;> simp_all

@[simp] theorem mem_remove :
    key' ∈ m.remove key ↔ key' ≠ key ∧ key' ∈ m := by
  simp only [mem_iff_get?, get?_remove]
  split <;> simp_all

theorem remove_of_not_mem (h : key ∉ m) : m.remove key = m := by
  apply ext
  simp only [remove, ne_eq, decide_not]
  rw [filter_eq_self]
  intro entry hentry
  have hne : entry.1 ≠ key := by
    rintro rfl
    exact h (mem_iff_keys.mpr (List.mem_map_of_mem hentry))
  simpa using hne

@[simp] theorem put_put (m : OrderedMap κ ν) (key : κ) (value value' : ν) :
    (m.put key value).put key value' = m.put key value' := by
  apply ext
  simp [put, remove, filter_append]

theorem size_remove_of_mem (h : key ∈ m) :
    (m.remove key).size < m.size := by
  obtain ⟨entry, hentry, hkey⟩ := List.mem_map.mp (mem_iff_keys.mp h)
  exact length_filter_lt_length_iff_exists.mpr ⟨entry, hentry, by simp [hkey]⟩

theorem mapValues_remove (f : ν → ω) (m : OrderedMap κ ν) (key : κ) :
    (m.remove key).mapValues f = (m.mapValues f).remove key := by
  apply ext
  simp only [mapValues, remove, List.filter_map]
  rfl

theorem mapValues_put (f : ν → ω) (m : OrderedMap κ ν) (key : κ) (value : ν) :
    (m.put key value).mapValues f = (m.mapValues f).put key (f value) := by
  have h := congrArg entries (mapValues_remove f m key)
  apply ext
  simp only [mapValues, put, map_append] at h ⊢
  rw [h]
  rfl

theorem get?_mapValues (f : ν → ω) (m : OrderedMap κ ν) (key : κ) :
    (m.mapValues f).get? key = (m.get? key).map f := by
  simp only [get?, mapValues, find?_map, Option.map_map]
  rfl

def modify (m : OrderedMap κ ν) (key : κ) (f : ν → ν) : OrderedMap κ ν where
  entries := m.entries.map fun entry => (entry.1, if entry.1 = key then f entry.2 else entry.2)
  nodup := by
    have h := m.nodup
    rwa [List.map_map]

theorem get?_modify (m : OrderedMap κ ν) (key key' : κ) (f : ν → ν) :
    (m.modify key f).get? key' = if key' = key then (m.get? key).map f else m.get? key' := by
  have hfind : (m.modify key f).get? key' =
      (m.entries.find? fun entry => entry.1 = key').map fun entry =>
        if entry.1 = key then f entry.2 else entry.2 := by
    simp only [get?, modify, find?_map, Option.map_map]
    rfl
  rw [hfind]
  cases h : m.entries.find? fun entry => entry.1 = key' with
  | none =>
    split
    · next heq =>
      subst heq
      simp [get?, h]
    · simp [get?, h]
  | some entry =>
    have hkey : entry.1 = key' := by simpa using find?_some h
    split
    · next heq =>
      subst heq
      simp [get?, h, hkey]
    · next hne => simp [get?, h, hkey, hne]

theorem get?_of_mem_entries (h : (key, value) ∈ m.entries) : m.get? key = some value := by
  cases hfind : m.get? key with
  | none =>
    have hmem : key ∈ m := mem_iff_keys.mpr (List.mem_map_of_mem h)
    exact absurd hmem (get?_eq_none_iff.mp hfind)
  | some value' =>
    simp only [get?, map_eq_some_iff] at hfind
    obtain ⟨entry, hentry, rfl⟩ := hfind
    have hkey : entry.1 = key := by simpa using find?_some hentry
    have heq := inj_on_of_nodup_map m.nodup (mem_of_find?_eq_some hentry) h hkey
    rw [heq]

theorem mem_values_of_get? (h : m.get? key = some value) :
    value ∈ m.values := by
  obtain ⟨entry, hentry, rfl⟩ := map_eq_some_iff.mp h
  exact List.mem_map_of_mem (mem_of_find?_eq_some hentry)

theorem exists_get?_of_mem_values (h : value ∈ m.values) :
    ∃ key, m.get? key = some value := by
  obtain ⟨⟨key, _⟩, hentry, rfl⟩ := List.mem_map.mp h
  exact ⟨key, get?_of_mem_entries hentry⟩

theorem nodup_values_of_keyed {keyOf : ν → κ}
    (h : ∀ key value, m.get? key = some value → keyOf value = key) : m.values.Nodup := by
  have hkeys : m.values.map keyOf = m.entries.map Prod.fst := by
    rw [values, List.map_map]
    apply map_congr_left
    intro entry hentry
    exact h entry.1 entry.2 (get?_of_mem_entries hentry)
  exact List.Nodup.of_map keyOf (hkeys ▸ m.nodup)

section

variable {f : ν → Int}

def weightOf (f : ν → Int) (m : OrderedMap κ ν) (key : κ) : Int := ((m.get? key).map f).getD 0

private theorem sum_filter_ne (l : List (κ × ν)) (hl : (l.map Prod.fst).Nodup) (key : κ) :
    ((l.filter fun entry => entry.1 ≠ key).map fun entry => f entry.2).sum =
      (l.map fun entry => f entry.2).sum - (((l.find? fun entry => entry.1 = key).map Prod.snd).map f).getD 0 := by
  induction l with
  | nil => rfl
  | cons entry l ih =>
    obtain ⟨hnew, hl⟩ := nodup_cons.mp hl
    by_cases hkey : entry.1 = key
    · subst hkey
      have hsame : (l.filter fun other => other.1 ≠ entry.1) = l := by
        refine filter_eq_self.mpr fun other hother => ?_
        exact decide_eq_true fun heq => hnew (heq ▸ List.mem_map_of_mem hother)
      rw [filter_cons, if_neg (by simp), hsame, find?_cons_of_pos (by simp), map_cons, sum_cons]
      simp
    · rw [filter_cons, if_pos (by simpa using hkey), find?_cons_of_neg (by simpa using hkey), map_cons,
        map_cons, sum_cons, sum_cons, ih hl]
      omega

theorem total_remove (m : OrderedMap κ ν) (key : κ) : (m.remove key).total f = m.total f - m.weightOf f key := by
  rw [total_eq_sum, total_eq_sum]
  exact sum_filter_ne m.entries m.nodup key

theorem total_put (m : OrderedMap κ ν) (key : κ) (value : ν) :
    (m.put key value).total f = m.total f - m.weightOf f key + f value := by
  rw [← total_remove, total, values_put, map_append, sum_append, total]
  simp

theorem size_put (m : OrderedMap κ ν) (key : κ) (value : ν) :
    ((m.put key value).size : Int) = m.size + if key ∈ m then 0 else 1 := by
  rw [size_eq_total, size_eq_total, total_put, weightOf]
  cases hget : m.get? key with
  | none =>
    rw [if_neg (get?_eq_none_iff.mp hget)]
    simp
  | some old =>
    have hmem : key ∈ m := by
      rw [mem_iff_get?, hget]
      rfl
    rw [if_pos hmem]
    simp

end

end OrderedMap

end Nodra
