import Nodra.Lib.Lines

/-! Readers that take bytes from the front of a stream and leave the rest.  A reader that never
looks past what it takes reads a text the same whatever follows it, and cannot be content with
less than all of it. -/
namespace Nodra.Lines
open List

abbrev Reader (α : Type) := StateT Bytes Option α

namespace Reader

variable {α β : Type}

def Stable (p : Reader α) : Prop :=
  ∀ s value rest more, p.run s = some (value, rest) → p.run (s ++ more) = some (value, rest ++ more)

def Reads (p : Reader α) (text : Bytes) (value : α) : Prop :=
  ∀ rest, p.run (text ++ rest) = some (value, rest)

theorem Stable.pure (value : α) : Stable (Pure.pure value : Reader α) := by
  rintro s _ _ more ⟨⟩
  rfl

theorem Stable.failure : Stable (failure : Reader α) := by
  rintro s _ _ more ⟨⟩

variable {p : Reader α} {f : α → Reader β}

theorem Stable.bind (hp : Stable p) (hf : ∀ value, Stable (f value)) :
    Stable (p >>= f) := by
  intro s value rest more h
  rw [StateT.run_bind] at h ⊢
  obtain ⟨⟨first, left⟩, hfirst, hsecond⟩ := Option.bind_eq_some_iff.mp h
  rw [hp s first left more hfirst]
  exact hf first left value rest more hsecond

theorem Stable.ite {c : Prop} [Decidable c] {q : Reader α} (hp : Stable p) (hq : Stable q) :
    Stable (if c then p else q) := by
  split
  · exact hp
  · exact hq

theorem Reads.pure (value : α) : Reads (Pure.pure value : Reader α) [] value := fun _ => rfl

theorem Reads.bind {text more : Bytes} {first : α} {value : β}
    (hp : Reads p text first) (hf : Reads (f first) more value) : Reads (p >>= f) (text ++ more) value := by
  intro rest
  rw [StateT.run_bind, append_assoc, hp]
  exact hf rest

theorem Reads.map {text : Bytes} {value : α} (f : α → β) (h : Reads p text value) :
    Reads (f <$> p) text (f value) := by
  intro rest
  rw [StateT.run_map, h rest]
  rfl

theorem Reads.bind_pure {text : Bytes} {value : α} {f : α → β} (h : Reads p text value) :
    Reads (p >>= fun x => Pure.pure (f x)) text (f value) := by
  intro rest
  rw [StateT.run_bind, h rest]
  rfl

theorem Stable.map (h : Stable p) (f : α → β) : Stable (f <$> p) := by
  intro s value rest more hrun
  rw [StateT.run_map] at hrun ⊢
  obtain ⟨⟨first, left⟩, hfirst, hvalue⟩ := Option.map_eq_some_iff.mp hrun
  cases hvalue
  rw [h s first left more hfirst]
  rfl

theorem Stable.run_eq_none {text part : Bytes} {value : α} (h : Stable p)
    (htext : Reads p text value) (hpart : part <+: text) (hne : part ≠ text) : p.run part = none := by
  obtain ⟨more, rfl⟩ := hpart
  cases hrun : p.run part with
  | none => rfl
  | some result =>
    have hlong := h part result.1 result.2 more hrun
    have hwhole := htext []
    rw [append_nil] at hwhole
    have hrest := congrArg Prod.snd (Option.some.inj (hwhole.symm.trans hlong))
    have hnil : more = [] := (append_eq_nil_iff.mp hrest.symm).2
    rw [hnil, append_nil] at hne
    exact absurd rfl hne

def next : Reader UInt8
  | [] => none
  | c :: rest => some (c, rest)

theorem stable_next : Stable next := by
  rintro (_ | ⟨c, s⟩) value rest more h
  · cases h
  · cases h
    rfl

theorem reads_next (c : UInt8) : Reads next [c] c := fun _ => rfl

end Reader

end Nodra.Lines
