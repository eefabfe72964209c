import Nodra.Lib.Reader

/-! The binary values of OPC-UA: numbers with their least significant byte first, and texts and
node ids made of them.  The reader of the source keeps its first error, so a value read after it
is never used; here the read ends there. -/
namespace Nodra.Opcua

open Nodra.Lines

def little : Nat → Nat → Bytes
  | 0, _ => []
  | width + 1, n => UInt8.ofNat n :: little width (n / 256)

def littleValue : Bytes → Nat
  | [] => 0
  | c :: rest => c.toNat + 256 * littleValue rest

@[simp] theorem length_little (width n : Nat) : (little width n).length = width := by
  induction width generalizing n with
  | zero => rfl
  | succ width ih => simp [little, ih]

theorem littleValue_little (width n : Nat) : littleValue (little width n) = n % 256 ^ width := by
  induction width generalizing n with
  | zero => simp [little, littleValue, Nat.mod_one]
  | succ width ih =>
    rw [little, littleValue, ih, UInt8.toNat_ofNat']
    change n % 256 + 256 * (n / 256 % 256 ^ width) = n % 256 ^ (width + 1)
    rw [Nat.pow_succ', Nat.mod_mul]

def raw (n : Nat) : Reader Bytes := fun s =>
  if n ≤ s.length then some (s.take n, s.drop n) else none

theorem reads_raw {n : Nat} {text : Bytes} (h : text.length = n) : Reader.Reads (raw n) text text := by
  intro rest
  subst h
  simp [raw, StateT.run]

def u8 : Reader Nat := littleValue <$> raw 1
def u16 : Reader Nat := littleValue <$> raw 2
def u32 : Reader Nat := littleValue <$> raw 4

theorem reads_u32 {text : Bytes} (h : text.length = 4) : Reader.Reads u32 text (littleValue text) := by
  intro rest
  rw [u32, StateT.run_map, reads_raw h rest]
  rfl

/-- A length that is negative as an `int32`, or zero, stands for the empty text. -/
def str : Reader Bytes := do
  let n ← u32
  if n = 0 ∨ 2 ^ 31 ≤ n then pure [] else raw n

def skipNodeId (enc : Nat) : Reader Unit :=
  match enc with
  | 0 => discard u8
  | 1 => discard u8 >>= fun _ => discard u16
  | 2 => discard u16 >>= fun _ => discard u32
  | 3 => discard u16 >>= fun _ => discard str
  | 4 => discard u16 >>= fun _ => discard (raw 16)
  | 5 => discard u16 >>= fun _ => discard str
  | _ => failure

def readNodeIdRaw : Reader Bytes := do
  let start ← get
  let enc ← u8
  skipNodeId enc
  let left ← get
  pure (start.take (start.length - left.length))

def readTypeID : Reader Nat := do
  let start ← get
  match ← u8 with
  | 0 => u8
  | 1 => discard u8 >>= fun _ => u16
  | 2 => discard u16 >>= fun _ => u32
  | _ =>
    set start
    let _ ← readNodeIdRaw
    pure 0

end Nodra.Opcua
