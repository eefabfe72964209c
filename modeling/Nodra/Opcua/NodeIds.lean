import Nodra.Lib.JsonNumber
import Nodra.Opcua.Wire

/-! Node ids, as text and as bytes. -/
namespace Nodra.Opcua

open Nodra.Lines Nodra.JsonNumber List Option

/-- The program keeps both kinds in one record, with a flag; the fields of the other kind are empty. -/
inductive NodeID where
  | numeric (ns : BitVec 16) (id : BitVec 32)
  | string (ns : BitVec 16) (id : Bytes)
deriving DecidableEq

namespace NodeID

def toString : NodeID → Bytes
  | numeric ns id => ascii "ns=" ++ decimal ns.toNat ++ 0x3b :: (ascii "i=" ++ decimal id.toNat)
  | string ns id => ascii "ns=" ++ decimal ns.toNat ++ 0x3b :: (ascii "s=" ++ id)

/-- The smallest form that fits. -/
def encode : NodeID → Bytes
  | string ns id => 0x03 :: (little 2 ns.toNat ++ (little 4 id.length ++ id))
  | numeric ns id =>
    if ns = 0 ∧ id.toNat ≤ 255 then [0x00, UInt8.ofNat id.toNat]
    else if ns.toNat ≤ 255 ∧ id.toNat ≤ 65535 then 0x01 :: UInt8.ofNat ns.toNat :: little 2 id.toNat
    else 0x02 :: (little 2 ns.toNat ++ little 4 id.toNat)

end NodeID

/-- A part between semicolons; the last one that counts overrides those before. -/
def parsePart (state : Nat × Bytes) (p : Bytes) : Option (Nat × Bytes) :=
  if (ascii "ns=").isPrefixOf p then (parseUint 16 (p.drop 3)).map fun ns => (ns, state.2)
  else if (ascii "i=").isPrefixOf p || (ascii "s=").isPrefixOf p then some (state.1, p)
  else some state

def parseNodeID (s : Bytes) : Option NodeID := do
  let (ns, identPart) ← (s.splitOn 0x3b).foldlM parsePart (0, [])
  if identPart = [] then none
  else if (ascii "i=").isPrefixOf identPart then
    (parseUint 32 (identPart.drop 2)).map fun id => .numeric (BitVec.ofNat 16 ns) (BitVec.ofNat 32 id)
  else if identPart.drop 2 = [] then none
  else some (.string (BitVec.ofNat 16 ns) (identPart.drop 2))

theorem not_mem_of_mem_splitOn {c : UInt8} {s p : Bytes} (h : p ∈ s.splitOn c) : c ∉ p := by
  induction s generalizing p with
  | nil => simp_all
  | cons x s ih =>
    rw [List.splitOn, splitOnP_cons_eq_if_modifyHead] at h
    split at h
    next =>
      rcases mem_cons.mp h with rfl | h
      · exact not_mem_nil
      · exact ih h
    next hx =>
      change p ∈ (s.splitOn c).modifyHead (List.cons x) at h
      cases hparts : s.splitOn c with
      | nil =>
        rw [hparts] at h
        cases h
      | cons first parts =>
        rw [hparts, modifyHead_cons] at h
        rw [hparts] at ih
        rcases mem_cons.mp h with rfl | h
        · simpa [Ne.symm (ne_of_beq_false (Bool.eq_false_iff.mpr hx))] using ih (mem_cons_self ..)
        · exact ih (mem_cons_of_mem _ h)

theorem parsePart_ident {state next : Nat × Bytes} {p : Bytes} (h : parsePart state p = some next) :
    next.2 = state.2 ∨ next.2 = p := by
  unfold parsePart at h
  split at h
  · obtain ⟨ns, -, rfl⟩ := map_eq_some_iff.mp h
    exact .inl rfl
  · split at h <;> cases h <;> simp

theorem ident_mem {parts : List Bytes} {state last : Nat × Bytes} (h : parts.foldlM parsePart state = some last) :
    last.2 = state.2 ∨ last.2 ∈ parts := by
  induction parts generalizing state with
  | nil =>
    cases h
    exact .inl rfl
  | cons p parts ih =>
    rw [foldlM_cons] at h
    obtain ⟨next, hnext, hrest⟩ := bind_eq_some_iff.mp h
    have hident := parsePart_ident hnext
    have hlast := ih hrest
    grind

theorem not_mem_of_parseNodeID {s id : Bytes} {ns : BitVec 16} (h : parseNodeID s = some (.string ns id)) :
    0x3b ∉ id := by
  obtain ⟨⟨n, identPart⟩, hparts, hident⟩ := bind_eq_some_iff.mp h
  have hmem := ident_mem hparts
  dsimp only at hident hmem
  split at hident
  · cases hident
  next hne =>
    have hpart := not_mem_of_mem_splitOn (hmem.resolve_left hne)
    split at hident
    · obtain ⟨_, _, h⟩ := map_eq_some_iff.mp hident
      cases h
    · split at hident
      · cases hident
      · cases hident
        exact fun h => hpart (mem_of_mem_drop h)

theorem semicolon_not_mem_decimal (n : Nat) : 0x3b ∉ decimal n := fun h =>
  absurd (isDigit_of_mem_decimal n _ h) (by decide)

theorem foldlM_parsePart (ns : BitVec 16) {part : Bytes} (h : 0x3b ∉ part) :
    ((ascii "ns=" ++ decimal ns.toNat ++ 0x3b :: part).splitOn 0x3b).foldlM parsePart (0, []) =
      parsePart (ns.toNat, []) part := by
  have hfirst : 0x3b ∉ ascii "ns=" ++ decimal ns.toNat := by
    rw [mem_append, not_or]
    exact ⟨by decide, semicolon_not_mem_decimal _⟩
  have hns : parsePart (0, []) (ascii "ns=" ++ decimal ns.toNat) = some (ns.toNat, []) := by
    rw [parsePart, if_pos (by simp [ascii])]
    exact congrArg (Option.map _) (parseUint_decimal ns.isLt)
  rw [List.splitOn, splitOnP_append_cons_of_forall_mem (by grind) _ rfl, splitOnP_eq_singleton (by grind),
    foldlM_cons, hns]
  simp

/-- A string identifier is read back exactly if there is no semicolon in it. -/
theorem parseNodeID_toString_iff {n : NodeID} (hne : ∀ ns, n ≠ .string ns []) :
    parseNodeID n.toString = some n ↔ ∀ ns id, n = .string ns id → 0x3b ∉ id := by
  cases n with
  | numeric ns id =>
    have hpart : 0x3b ∉ ascii "i=" ++ decimal id.toNat := by
      rw [mem_append, not_or]
      exact ⟨by decide, semicolon_not_mem_decimal _⟩
    refine iff_of_true ?_ nofun
    rw [NodeID.toString, parseNodeID, foldlM_parsePart ns hpart]
    simp [parsePart, ascii, parseUint_decimal id.isLt]
  | string ns id =>
    constructor
    · rintro h _ _ ⟨⟩
      exact not_mem_of_parseNodeID h
    · intro h
      have hid : id ≠ [] := fun hid => hne ns (hid ▸ rfl)
      have hpart : 0x3b ∉ ascii "s=" ++ id := by
        rw [mem_append, not_or]
        exact ⟨by decide, h ns id rfl⟩
      rw [NodeID.toString, parseNodeID, foldlM_parsePart ns hpart]
      simp [parsePart, ascii, hid]

theorem parseNodeID_toString_iff_temperature :
    parseNodeID (NodeID.string 2 (ascii "Temperature")).toString = some (.string 2 (ascii "Temperature")) := by
  refine (parseNodeID_toString_iff (fun ns h => ?_)).mpr (fun ns id h => ?_)
  · cases h
  · cases h
    decide

/-- The identifier `a;i=7` comes back as the number. -/
theorem parseNodeID_semicolon :
    parseNodeID (NodeID.string 2 (ascii "a;i=7")).toString = some (.numeric 2 7) := by
  decide

/-! The binary forms. -/

/-- A number of this many bytes, as the machine holds it. -/
def word (width : Nat) : Reader (BitVec (8 * width)) := BitVec.ofNat (8 * width) <$> littleValue <$> raw width

def decodeNodeID : Reader NodeID := do
  match ← u8 with
  | 0 => (fun id => .numeric 0 (BitVec.ofNat 32 id)) <$> u8
  | 1 => do
    let ns ← u8
    (fun id => .numeric (BitVec.ofNat 16 ns) (BitVec.ofNat 32 id)) <$> u16
  | 2 => do
    let ns ← word 2
    .numeric ns <$> word 4
  | 3 => do
    let ns ← word 2
    .string ns <$> str
  | _ => failure

/-- A field that is there if its bit is set. -/
def flagged {α : Type} (mask bit : Nat) (p : Reader α) (absent : α) : Reader α :=
  if mask &&& bit ≠ 0 then p else pure absent

/-- A text on the wire, where a null stands for the empty one. -/
structure Text where
  value : Bytes
  null : Bool
  fits : value.length < 2 ^ 31
  empty : null = true → value = []

def Text.encode (t : Text) : Bytes := if t.null then little 4 (2 ^ 32 - 1) else little 4 t.value.length ++ t.value

/-- The forms of a node id behind the byte that names them, and the id if the program knows it. -/
inductive Form : Option NodeID → Nat → Bytes → Prop
  | twoByte (id : UInt8) : Form (some (.numeric 0 (BitVec.ofNat 32 id.toNat))) 0 [id]
  | fourByte (ns : UInt8) (id : BitVec 16) :
    Form (some (.numeric (BitVec.ofNat 16 ns.toNat) (BitVec.ofNat 32 id.toNat))) 1 ([ns] ++ little 2 id.toNat)
  | numeric (ns : BitVec 16) (id : BitVec 32) :
    Form (some (.numeric ns id)) 2 (little 2 ns.toNat ++ little 4 id.toNat)
  | string (ns : BitVec 16) (t : Text) : Form (some (.string ns t.value)) 3 (little 2 ns.toNat ++ t.encode)
  | guid (ns : BitVec 16) (g : Bytes) (h : g.length = 16) : Form none 4 (little 2 ns.toNat ++ g)
  | byteString (ns : BitVec 16) (t : Text) : Form none 5 (little 2 ns.toNat ++ t.encode)

open Reader (Reads)

theorem reads_little {width n : Nat} (h : n < 256 ^ width) :
    Reads (littleValue <$> raw width) (little width n) n := by
  intro rest
  rw [StateT.run_map, reads_raw (length_little width n) rest]
  change some (littleValue (little width n), rest) = _
  rw [littleValue_little, Nat.mod_eq_of_lt h]

theorem reads_u8 (c : UInt8) : Reads u8 [c] c.toNat := by
  have h : Reads u8 (little 1 c.toNat) c.toNat := reads_little c.toNat_lt
  rwa [little, little, UInt8.ofNat_toNat] at h

theorem reads_u16 (n : BitVec 16) : Reads u16 (little 2 n.toNat) n.toNat := reads_little n.isLt

theorem reads_u32_little (n : BitVec 32) : Reads u32 (little 4 n.toNat) n.toNat := reads_little n.isLt

theorem reads_word (width : Nat) (n : BitVec (8 * width)) : Reads (word width) (little width n.toNat) n := by
  have h := (reads_little (Nat.pow_mul 2 8 width ▸ n.isLt)).map (BitVec.ofNat (8 * width))
  rwa [BitVec.ofNat_toNat, BitVec.setWidth_eq] at h

theorem reads_str (t : Text) : Reads str t.encode t.value := by
  unfold Text.encode
  split
  next hnull =>
    rw [t.empty hnull]
    rw [← append_nil (little 4 _)]
    exact (reads_little (n := 2 ^ 32 - 1) (by decide)).bind fun _ => rfl
  next =>
    have hfits := t.fits
    apply Reads.bind (reads_little (by omega))
    by_cases hzero : t.value.length = 0
    · rw [if_pos (.inl hzero), eq_nil_of_length_eq_zero hzero]
      exact Reads.pure _
    · rw [if_neg (by omega)]
      exact reads_raw rfl

theorem Form.reads_skip {id : Option NodeID} {enc : Nat} {body : Bytes} (h : Form id enc body) :
    Reads (skipNodeId enc) body () := by
  cases h with
  | twoByte id => exact (reads_u8 id).map _
  | fourByte ns id => exact ((reads_u8 ns).map _).bind ((reads_u16 id).map _)
  | numeric ns id => exact ((reads_u16 ns).map _).bind ((reads_u32_little id).map _)
  | string ns t => exact ((reads_u16 ns).map _).bind ((reads_str t).map _)
  | guid ns g h => exact ((reads_u16 ns).map _).bind ((reads_raw h).map _)
  | byteString ns t => exact ((reads_u16 ns).map _).bind ((reads_str t).map _)

theorem Form.reads_decodeNodeID {id : NodeID} {enc : Nat} {body : Bytes} (h : Form (some id) enc body) :
    Reads decodeNodeID ([UInt8.ofNat enc] ++ body) id := by
  apply (reads_u8 _).bind
  cases h with
  | twoByte id => exact (reads_u8 id).map _
  | fourByte ns id => exact (reads_u8 ns).bind ((reads_u16 id).map _)
  | numeric ns id => exact (reads_word 2 ns).bind ((reads_word 4 id).map _)
  | string ns t => exact (reads_word 2 ns).bind ((reads_str t).map _)

theorem Form.enc_lt {id : Option NodeID} {enc : Nat} {body : Bytes} (h : Form id enc body) : enc < 6 := by
  cases h <;> decide

/-- The bytes that a reader took, cut out of those it had before. -/
theorem take_taken (text rest : Bytes) : (text ++ rest).take ((text ++ rest).length - rest.length) = text :=
  take_left' (by simp)

theorem Form.reads_readNodeIdRaw {id : Option NodeID} {enc : Nat} {body : Bytes} (h : Form id enc body) :
    Reads readNodeIdRaw ([UInt8.ofNat enc] ++ body) ([UInt8.ofNat enc] ++ body) := by
  have henc : (UInt8.ofNat enc).toNat = enc := UInt8.toNat_ofNat_of_lt (Nat.lt_trans h.enc_lt (by decide))
  intro rest
  have hfirst := reads_u8 (UInt8.ofNat enc) (body ++ rest)
  have hskip := h.reads_skip rest
  rw [← append_assoc] at hfirst
  simp only [readNodeIdRaw, StateT.run_bind, StateT.run_get, Option.pure_def, bind_eq_bind, bind_some,
    hfirst, henc, hskip, StateT.run_pure, take_taken]

/-- What a node id is written as is one of the forms. -/
theorem NodeID.exists_form (n : NodeID) (h : ∀ ns id, n = .string ns id → id.length < 2 ^ 31) :
    ∃ enc body, n.encode = [UInt8.ofNat enc] ++ body ∧ Form (some n) enc body := by
  cases n with
  | numeric ns id =>
    rw [encode]
    split
    next hsmall =>
      have hform := Form.twoByte (UInt8.ofNat id.toNat)
      rw [UInt8.toNat_ofNat', Nat.mod_eq_of_lt (by omega), BitVec.ofNat_toNat, BitVec.setWidth_eq] at hform
      exact ⟨0, _, rfl, hsmall.1 ▸ hform⟩
    next =>
      split
      next hmedium =>
        have hform := Form.fourByte (UInt8.ofNat ns.toNat) (BitVec.ofNat 16 id.toNat)
        rw [UInt8.toNat_ofNat', Nat.mod_eq_of_lt (by omega), BitVec.toNat_ofNat, Nat.mod_eq_of_lt (by omega),
          BitVec.ofNat_toNat, BitVec.ofNat_toNat, BitVec.setWidth_eq, BitVec.setWidth_eq] at hform
        exact ⟨1, _, rfl, hform⟩
      next => exact ⟨2, _, rfl, .numeric ns id⟩
  | string ns id => exact ⟨3, _, rfl, .string ns ⟨id, false, h ns id rfl, nofun⟩⟩

end Nodra.Opcua
