import Nodra.Opcua.Values

/-! A poll of an OPC-UA server: a read of the configured nodes, and the event made of the answer. -/
namespace Nodra.Opcua

open Nodra.Lines Option

/-- Every level takes a byte of its own, so there are never more levels than bytes. -/
def skipDiagnostics : Nat → Reader Unit
  | 0 => failure
  | levels + 1 => do
    let mask ← u8
    let _ ← flagged mask 0x01 u32 0
    let _ ← flagged mask 0x02 u32 0
    let _ ← flagged mask 0x04 u32 0
    let _ ← flagged mask 0x08 u32 0
    let _ ← flagged mask 0x10 str []
    let _ ← flagged mask 0x20 u32 0
    flagged mask 0x40 (skipDiagnostics levels) ()

def readDiagnosticInfo : Reader Unit := fun s => skipDiagnostics s.length s

/-- The count of an array; a negative `int32` stands for none. -/
def count : Reader Nat := (fun n => if n < 2 ^ 31 then n else 0) <$> u32

def readTimes {α : Type} (p : Reader α) : Nat → Reader (List α)
  | 0 => pure []
  | n + 1 => do
    let first ← p
    let rest ← readTimes p n
    pure (first :: rest)

def readExtensionObjectNull : Reader Unit := do
  let _ ← readNodeIdRaw
  let enc ← u8
  if enc = 1 ∨ enc = 2 then discard str else pure ()

def readResponseHeader : Reader Nat := do
  let _ ← word 8
  let _ ← u32
  let status ← u32
  readDiagnosticInfo
  let _ ← count >>= readTimes str
  readExtensionObjectNull
  pure status

/-- The count that a good response announces. -/
def announced : Reader Nat := do
  let status ← readResponseHeader
  if status ≠ 0 then failure else count

/-- `session.read` on the body of a response; there is no value if it returns an error. -/
def read (body : Bytes) : Option (List DataValue) := (announced >>= readTimes decodeDataValue).run' body

/-- The values with the node ids at their indices, or nothing where an index is out of range. -/
def label : List Bytes → List DataValue → Option (List (Bytes × DataValue))
  | _, [] => some []
  | [], _ :: _ => none
  | id :: ids, v :: values => (label ids values).map ((id, v) :: ·)

end Nodra.Opcua
