import Nodra.Lib.JsonNumber
import Std.Data.ExtTreeMap

/-! Every countable type has a JSON codec: its values can be numbered. -/
namespace Nodra.JsonText
open Lines JsonNumber Std

instance countable_char : Countable Char := ⟨Char.toNat, fun _ _ h => Char.toNat_inj.mp h⟩

instance countable_string : Countable String := by
  obtain ⟨f, hf⟩ := exists_injective_nat (List Char)
  exact ⟨fun s => f s.toList, fun _ _ h => String.ext (hf h)⟩

instance countable_extTreeMap {ν : Type} [Countable ν] : Countable (ExtTreeMap String ν) := by
  obtain ⟨f, hf⟩ := exists_injective_nat (List (String × ν))
  exact ⟨fun m => f m.toList, fun _ _ h => ExtTreeMap.ext_toList (.of_eq (hf h))⟩

theorem isCompact_null : IsCompact (ascii "null") :=
  ⟨by decide, by decide, by decide +kernel⟩

theorem digitsValue_null : digitsValue (ascii "null") = none := by decide

open Classical in
/-- Write one value as `null`, number the others and write the numbers in decimal. -/
noncomputable def Codec.ofCountable {α : Type} [Countable α] (zero : α) : Codec α :=
  letI := Encodable.ofCountable α
  { marshal := fun value => if value = zero then ascii "null" else decimal (Encodable.encode value)
    unmarshal := fun text =>
      match digitsValue text with
      | some n => Encodable.decode n
      | none => some zero
    unmarshal_marshal := by
      intro value
      by_cases h : value = zero
      · rw [if_pos h, digitsValue_null, h]
      · rw [if_neg h, digitsValue_decimal]
        exact Encodable.encodek value
    isCompact_marshal := by
      intro value
      by_cases h : value = zero
      · rw [if_pos h]
        exact isCompact_null
      · rw [if_neg h]
        exact isCompact_decimal _ }

theorem Codec.marshal_ofCountable_zero {α : Type} [Countable α] (zero : α) :
    (Codec.ofCountable zero).marshal zero = ascii "null" :=
  if_pos rfl

end Nodra.JsonText
