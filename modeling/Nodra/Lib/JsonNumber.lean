import Nodra.Lib.JsonText

/-! Unsigned integers in JSON: `strconv` writes no leading zero, and reads back
digits only, up to the width of the target. -/
namespace Nodra.JsonNumber
open Lines JsonText List

def digit (n : Nat) : UInt8 := UInt8.ofNat (0x30 + n % 10)

def decimalAcc : Nat → Nat → Bytes → Bytes
  | 0, _, acc => acc
  | fuel + 1, n, acc =>
    if n < 10 then digit n :: acc else decimalAcc fuel (n / 10) (digit n :: acc)

def decimal (n : Nat) : Bytes := decimalAcc (n + 1) n []

def digitsValue (s : Bytes) : Option Nat :=
  s.foldl (fun value c => value.bind fun v =>
    if isDigit c then some (v * 10 + (c.toNat - 0x30)) else none) (some 0)

def parseUint (bits : Nat) (s : Bytes) : Option Nat :=
  if s = [] then none else (digitsValue s).filter fun v => decide (v < 2 ^ bits)

private theorem decimalAcc_append (fuel n : Nat) (acc : Bytes) (h : n < fuel) :
    decimalAcc fuel n acc = decimal n ++ acc := by
  unfold decimal
  suffices hgen : ∀ fuel fuel' n acc acc', n < fuel → n < fuel' →
      decimalAcc fuel n (acc' ++ acc) = decimalAcc fuel' n acc' ++ acc by
    exact hgen fuel (n + 1) n acc [] h (by omega)
  intro fuel
  induction fuel with
  | zero => intro _ _ _ _ h; omega
  | succ fuel ih =>
    intro fuel' n acc acc' h h'
    cases fuel' with
    | zero => omega
    | succ fuel' =>
      simp only [decimalAcc]
      split
      · rfl
      · exact ih fuel' (n / 10) acc (digit n :: acc') (by omega) (by omega)

theorem decimal_of_lt {n : Nat} (h : n < 10) : decimal n = [digit n] := by
  simp [decimal, decimalAcc, h]

theorem decimal_of_le {n : Nat} (h : 10 ≤ n) : decimal n = decimal (n / 10) ++ [digit n] := by
  have hstep : decimal n = decimalAcc n (n / 10) [digit n] := by
    rw [decimal, decimalAcc, if_neg (by omega)]
  rw [hstep]
  exact decimalAcc_append n (n / 10) [digit n] (by omega)

private theorem digit_spec (n : Nat) :
    isDigit (digit n) = true ∧ (digit n).toNat = 0x30 + n % 10 := by
  have hmod : n % 10 < 10 := Nat.mod_lt _ (by decide)
  have hnat : (digit n).toNat = 0x30 + n % 10 := by
    simp only [digit, UInt8.toNat_ofNat']
    omega
  refine ⟨?_, hnat⟩
  simp only [isDigit, UInt8.le_iff_toNat_le, hnat, Bool.and_eq_true, decide_eq_true_eq]
  constructor
  · change 48 ≤ _
    omega
  · change _ ≤ 57
    omega

theorem digitsValue_decimal (n : Nat) : digitsValue (decimal n) = some n := by
  induction n using Nat.strong_induction_on with
  | _ n ih =>
    obtain ⟨hdigit, hnat⟩ := digit_spec n
    by_cases h : n < 10
    · simp [decimal_of_lt h, digitsValue, hdigit, hnat]
      omega
    · have htail := ih (n / 10) (by omega)
      unfold digitsValue at htail
      rw [decimal_of_le (by omega), digitsValue, foldl_append, htail]
      simp [hdigit, hnat]
      omega

theorem decimal_ne_nil (n : Nat) : decimal n ≠ [] := by
  by_cases h : n < 10
  · simp [decimal_of_lt h]
  · simp [decimal_of_le (Nat.le_of_not_lt h)]

theorem parseUint_decimal {bits n : Nat} (h : n < 2 ^ bits) : parseUint bits (decimal n) = some n := by
  simp [parseUint, decimal_ne_nil, digitsValue_decimal, h]

theorem isDigit_of_mem_decimal (n : Nat) (c : UInt8) (h : c ∈ decimal n) : isDigit c = true := by
  induction n using Nat.strong_induction_on with
  | _ n ih =>
    by_cases hn : n < 10
    · rw [decimal_of_lt hn, mem_singleton] at h
      exact h ▸ (digit_spec n).1
    · rw [decimal_of_le (by omega), mem_append, mem_singleton] at h
      cases h with
      | inl h => exact ih (n / 10) (by omega) h
      | inr h => exact h ▸ (digit_spec n).1

theorem decimal_head {n : Nat} (h : 0 < n) : ∃ c rest, decimal n = c :: rest ∧ c ≠ 0x30 := by
  induction n using Nat.strong_induction_on with
  | _ n ih =>
    by_cases hn : n < 10
    · refine ⟨digit n, [], decimal_of_lt hn, ?_⟩
      intro hzero
      have hnat := (digit_spec n).2
      rw [hzero] at hnat
      change 48 = _ at hnat
      omega
    · obtain ⟨c, rest, htail, hc⟩ := ih (n / 10) (by omega) (by omega)
      refine ⟨c, rest ++ [digit n], ?_, hc⟩
      rw [decimal_of_le (by omega), htail]
      rfl

private theorem skipDigits_all (s : Bytes) (h : ∀ c ∈ s, isDigit c = true) : skipDigits s = [] := by
  simpa [skipDigits, dropWhile_eq_nil_iff] using h

private theorem skipInteger_decimal (n : Nat) : skipInteger (decimal n) = some [] := by
  by_cases h : 0 < n
  · obtain ⟨c, rest, hdecimal, hc⟩ := decimal_head h
    have hdigits := isDigit_of_mem_decimal n
    rw [hdecimal] at hdigits ⊢
    have hrest := skipDigits_all rest fun d hd => hdigits d (mem_cons_of_mem _ hd)
    simp [skipInteger, hc, hdigits c (by simp), hrest]
  · have hn : n = 0 := by omega
    subst hn
    rfl

theorem isCompact_decimal (n : Nat) : IsCompact (decimal n) := by
  have hdigits := isDigit_of_mem_decimal n
  have hinteger := skipInteger_decimal n
  have hcontrol (c : UInt8) (h : isDigit c = true) : 0x20 ≤ c := by
    simp only [isDigit, Bool.and_eq_true, decide_eq_true_eq] at h
    grind
  cases hs : decimal n with
  | nil => exact absurd hs (decimal_ne_nil n)
  | cons c rest =>
    rw [hs] at hdigits hinteger
    have hc := hdigits c (by simp)
    have hbounds : 0x30 ≤ c ∧ c ≤ 0x39 := by simpa [isDigit] using hc
    have hspace : isSpace c = false := by
      simp only [isSpace, Bool.or_eq_false_iff, beq_eq_false_iff_ne]
      grind
    have hstart : skipSpace (c :: rest) = c :: rest := by
      simp [skipSpace, hspace]
    refine ⟨?_, hstart, fun b hb => hcontrol b (hdigits b hb)⟩
    simp only [skipValue, hstart]
    rw [if_neg (by grind), if_neg (by grind), if_neg (by grind), if_neg (by grind),
      if_neg (by grind), if_neg (by grind)]
    have hminus : skipMinus (c :: rest) = c :: rest := by
      rw [skipMinus, if_neg (by grind)]
    rw [skipNumber, hminus, hinteger]
    rfl

end Nodra.JsonNumber
