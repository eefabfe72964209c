import Nodra.Opcua.NodeIds

/-! The values of variables: variants, data values and their time stamps. -/
namespace Nodra.Opcua

open Nodra.Lines
open Reader (Reads Stable)

/-- The numbers that a variant holds, floats as their bits. -/
inductive Kind where
  | int16 | uint16 | int32 | uint32 | int64 | uint64 | float | double

def Kind.width : Kind → Nat
  | int16 | uint16 => 2
  | int32 | uint32 | float => 4
  | int64 | uint64 | double => 8

def Kind.typeID : Kind → UInt8
  | int16 => 4
  | uint16 => 5
  | int32 => 6
  | uint32 => 7
  | int64 => 8
  | uint64 => 9
  | float => 10
  | double => 11

/-- A time is the nanoseconds since 1970. -/
inductive Value where
  | null
  | bool (b : Bool)
  | number (kind : Kind) (bits : BitVec (8 * kind.width))
  | string (s : Bytes)
  | dateTime (nanoseconds : Int)

structure DataValue where
  value : Value
  statusCode : Nat
  sourceTimestamp : Option Int

/-- The ticks of 100 ns from 1601 to 1970. -/
def uaEpochOffsetTicks : BitVec 64 := 116444736000000000

def decodeDateTime (ticks : BitVec 64) : Int := ((ticks - uaEpochOffsetTicks) * 100).toInt

def decodeVariant : Reader Value := do
  let mask ← u8
  if mask &&& 0x80 ≠ 0 then failure
  else
    match mask &&& 0x3f with
    | 0 => pure .null
    | 1 => (fun b => .bool (b != 0)) <$> u8
    | 4 => .number .int16 <$> word 2
    | 5 => .number .uint16 <$> word 2
    | 6 => .number .int32 <$> word 4
    | 7 => .number .uint32 <$> word 4
    | 8 => .number .int64 <$> word 8
    | 9 => .number .uint64 <$> word 8
    | 10 => .number .float <$> word 4
    | 11 => .number .double <$> word 8
    | 12 => .string <$> str
    | 13 => (fun ticks => .dateTime (decodeDateTime ticks)) <$> word 8
    | _ => failure

/-- There is no encoding for the values of the other Go types. -/
def encodeVariant : Value → Option Bytes
  | .bool b => some [1, if b then 1 else 0]
  | .number kind bits => some (kind.typeID :: little kind.width bits.toNat)
  | .string s => some (12 :: (little 4 s.length ++ s))
  | .null | .dateTime _ => none

def encodeDataValueForWrite (v : Value) : Option Bytes := (encodeVariant v).map (0x01 :: ·)

def decodeDataValue : Reader DataValue := do
  let mask ← u8
  let value ← flagged mask 0x01 decodeVariant .null
  let status ← flagged mask 0x02 u32 0
  let source ← flagged mask 0x04 ((fun ticks => some (decodeDateTime ticks)) <$> word 8) none
  let _ ← flagged mask 0x10 u16 0
  let _ ← flagged mask 0x08 (word 8) 0
  let _ ← flagged mask 0x20 u16 0
  pure ⟨value, status, source⟩

def Value.Scalar : Value → Prop
  | bool _ | number .. => True
  | string s => s.length < 2 ^ 31
  | null | dateTime _ => False

theorem stable_raw (n : Nat) : Stable (raw n) := by
  intro s value rest more h
  simp only [raw, StateT.run] at h ⊢
  split at h
  next hle =>
    cases h
    rw [if_pos (by rw [List.length_append]; omega), List.take_append_of_le_length hle, List.drop_append_of_le_length hle]
  next => cases h

theorem stable_word (width : Nat) : Stable (word width) := ((stable_raw width).map _).map _

theorem stable_str : Stable str := ((stable_raw 4).map _).bind fun _ => .ite (.pure _) (stable_raw _)

theorem stable_flagged {α : Type} {mask bit : Nat} {p : Reader α} {absent : α} (h : Stable p) :
    Stable (flagged mask bit p absent) := .ite h (.pure absent)

theorem stable_decodeVariant : Stable decodeVariant := by
  apply ((stable_raw 1).map _).bind
  intro mask
  apply Stable.ite .failure
  split
  all_goals
    first
    | exact .pure _
    | exact .failure
    | exact ((stable_raw 1).map _).map _
    | exact (stable_word _).map _
    | exact (stable_word 8).map _
    | exact stable_str.map _

theorem stable_decodeDataValue : Stable decodeDataValue := by
  have hu16 : Stable u16 := (stable_raw 2).map _
  apply ((stable_raw 1).map _).bind
  intro mask
  exact (stable_flagged stable_decodeVariant).bind fun _ => (stable_flagged ((stable_raw 4).map _)).bind fun _ =>
    (stable_flagged ((stable_word 8).map _)).bind fun _ => (stable_flagged hu16).bind fun _ =>
    (stable_flagged (stable_word 8)).bind fun _ => (stable_flagged hu16).bind fun _ => .pure _

theorem reads_variant {v : Value} (h : v.Scalar) : ∃ text, encodeVariant v = some text ∧ Reads decodeVariant text v := by
  cases v with
  | bool b =>
    refine ⟨_, rfl, (reads_u8 1).bind ?_⟩
    cases b
    · exact (reads_u8 0).map _
    · exact (reads_u8 1).map _
  | number kind bits =>
    refine ⟨_, rfl, (reads_u8 _).bind ?_⟩
    cases kind <;> exact (reads_word _ bits).map _
  | string s =>
    exact ⟨_, rfl, (reads_u8 12).bind ((reads_str ⟨s, false, h, nofun⟩).map _)⟩
  | null | dateTime => cases h

/-- A data value that is only a variant. -/
theorem reads_only_value {text : Bytes} {v : Value} (h : Reads decodeVariant text v) :
    Reads decodeDataValue ([0x01] ++ text) ⟨v, 0, none⟩ :=
  (reads_u8 1).bind h.bind_pure

/-- Values and node ids are read back as they are written, and no part of a value is a value. -/
theorem values_and_node_ids_roundtrip :
    (∀ v : Value, v.Scalar → ∃ text, encodeDataValueForWrite v = some text ∧
      (∀ rest, decodeDataValue.run (text ++ rest) = some (⟨v, 0, none⟩, rest)) ∧
      ∀ part, part <+: text → part ≠ text → decodeDataValue.run part = none) ∧
    ∀ n : NodeID, (∀ ns id, n = .string ns id → id.length < 2 ^ 31) → ∀ rest,
      decodeNodeID.run (n.encode ++ rest) = some (n, rest) ∧
        readNodeIdRaw.run (n.encode ++ rest) = some (n.encode, rest) := by
  constructor
  · intro v hv
    obtain ⟨text, htext, hread⟩ := reads_variant hv
    have hvalue := reads_only_value hread
    exact ⟨_, congrArg _ htext, hvalue, fun part => stable_decodeDataValue.run_eq_none hvalue⟩
  · intro n hn rest
    obtain ⟨enc, body, hencode, hform⟩ := n.exists_form hn
    rw [hencode]
    exact ⟨hform.reads_decodeNodeID rest, hform.reads_readNodeIdRaw rest⟩

/-- The instant so many ticks after 1601, in nanoseconds since 1970. -/
def instant (ticks : BitVec 64) : Int := (ticks.toInt - 116444736000000000) * 100

theorem decodeDateTime_eq (ticks : BitVec 64) : decodeDateTime ticks = (instant ticks).bmod (2 ^ 64) := by
  rw [decodeDateTime, BitVec.toInt_mul, BitVec.toInt_sub, Int.bmod_mul_bmod]
  rfl

theorem decodeDateTime_eq_instant_iff (ticks : BitVec 64) :
    decodeDateTime ticks = instant ticks ↔ -2 ^ 63 ≤ instant ticks ∧ instant ticks < 2 ^ 63 := by
  rw [decodeDateTime_eq]
  constructor
  · intro h
    rw [← h]
    exact ⟨Int.le_bmod (by decide), Int.bmod_lt (by decide)⟩
  · rintro ⟨hlow, hhigh⟩
    exact Int.bmod_eq_of_le hlow hhigh

/-- Whether an instant fits the nanoseconds that the program computes with. -/
def InRange (ticks : BitVec 64) : Prop := -2 ^ 63 ≤ instant ticks ∧ instant ticks < 2 ^ 63

/-- Time stamps are exact, and in their order, exactly from 1677 to 2262. -/
theorem timestamps_exact_iff (ticks : BitVec 64) :
    ((∀ rest, decodeDataValue.run ([0x01] ++ ([13] ++ little 8 ticks.toNat) ++ rest) =
          some (⟨.dateTime (instant ticks), 0, none⟩, rest) ∧
        decodeDataValue.run ([0x04] ++ little 8 ticks.toNat ++ rest) =
          some (⟨.null, 0, some (instant ticks)⟩, rest)) ↔ InRange ticks) ∧
    ∀ later : BitVec 64, InRange ticks → InRange later →
      (decodeDateTime ticks ≤ decodeDateTime later ↔ ticks.toInt ≤ later.toInt) := by
  constructor
  · have hvariant : Reads decodeVariant ([13] ++ little 8 ticks.toNat) (.dateTime (decodeDateTime ticks)) :=
      (reads_u8 13).bind ((reads_word 8 ticks).map _)
    have hsource : Reads decodeDataValue ([0x04] ++ little 8 ticks.toNat) ⟨.null, 0, some (decodeDateTime ticks)⟩ :=
      (reads_u8 4).bind ((reads_word 8 ticks).map _).bind_pure
    rw [InRange, ← decodeDateTime_eq_instant_iff]
    constructor
    · intro h
      have hread := (h []).2
      rw [hsource []] at hread
      simpa using hread
    · intro h rest
      rw [reads_only_value hvariant rest, hsource rest, h]
      exact ⟨rfl, rfl⟩
  · intro later hticks hlater
    rw [(decodeDateTime_eq_instant_iff ticks).mpr hticks, (decodeDateTime_eq_instant_iff later).mpr hlater, instant,
      instant]
    omega

/-- The zero that servers send for an unknown time becomes one in 2185, after 1970. -/
theorem decodeDateTime_zero :
    decodeDateTime 0 = 6802270473709551616 ∧ instant 0 = -11644473600000000000 ∧
      decodeDateTime uaEpochOffsetTicks < decodeDateTime 0 ∧ instant 0 < instant uaEpochOffsetTicks := by
  decide

end Nodra.Opcua
