import Nodra.Opcua.NodeIds

/-! The references that a browse returns.  The first byte of an expanded node id has two flags, and
the bytes that are handed to the decoder of plain node ids still have them. -/
namespace Nodra.Opcua

open Nodra.Lines Option
open Reader (Reads)

/-- What is read, with the bytes it was read from. -/
def taken {α : Type} (p : Reader α) : Reader (α × Bytes) := do
  let start ← get
  let value ← p
  let left ← get
  pure (value, start.take (start.length - left.length))

def readExpandedNodeID : Reader (Bytes × Bytes × Nat) := do
  let (enc, nodeID) ← taken (do
    let enc ← u8
    skipNodeId (enc &&& 0x3f)
    pure enc)
  let namespaceURI ← flagged enc 0x80 str []
  let serverIndex ← flagged enc 0x40 u32 0
  pure (nodeID, namespaceURI, serverIndex)

def readLocalizedText : Reader (Bytes × Bytes) := do
  let mask ← u8
  let locale ← flagged mask 0x01 str []
  let text ← flagged mask 0x02 str []
  pure (locale, text)

structure ReferenceDescription where
  referenceTypeID : NodeID
  isForward : Bool
  targetNodeID : NodeID
  targetNamespaceURI : Bytes
  targetServerIndex : Nat
  browseNameNamespace : Nat
  browseName : Bytes
  displayName : Bytes
  nodeClass : Nat

/-- An id that does not decode is left at its zero value. -/
def decodedID (raw : Bytes) : NodeID := ((decodeNodeID.run raw).map Prod.fst).getD (.numeric 0 0)

def readReferenceDescription : Reader ReferenceDescription := do
  let typeRaw ← readNodeIdRaw
  let forward ← u8
  let (targetRaw, uri, index) ← readExpandedNodeID
  let browseNs ← u16
  let browseName ← str
  let (_, display) ← readLocalizedText
  let nodeClass ← u32
  let _ ← readExpandedNodeID
  pure ⟨decodedID typeRaw, forward != 0, decodedID targetRaw, uri, index, browseNs, browseName, display, nodeClass⟩

/-- An expanded node id as a server has it, in one of the forms. -/
structure Expanded (id : Option NodeID) where
  enc : Nat
  body : Bytes
  form : Form id enc body
  uri : Option Text
  index : Option (BitVec 32)

def flag (value : Nat) (present : Bool) : Nat := if present then value else 0

namespace Expanded

variable {id : Option NodeID} (e : Expanded id)

def mask : Nat := e.enc + flag 0x80 e.uri.isSome + flag 0x40 e.index.isSome

def nodeBytes : Bytes := [UInt8.ofNat e.mask] ++ e.body

def encode : Bytes :=
  e.nodeBytes ++ ((e.uri.map Text.encode).getD [] ++ (e.index.map fun n => little 4 n.toNat).getD [])

end Expanded

/-- A reference as a server has it. -/
structure Reference (id : NodeID) where
  {typeID typeDefID : Option NodeID}
  typeEnc : Nat
  typeBody : Bytes
  typeForm : Form typeID typeEnc typeBody
  forward : UInt8
  target : Expanded (some id)
  browseNs : BitVec 16
  browseName : Text
  locale : Option Text
  text : Option Text
  nodeClass : BitVec 32
  typeDefinition : Expanded typeDefID

def localized (locale text : Option Text) : Bytes :=
  [UInt8.ofNat (flag 0x01 locale.isSome + flag 0x02 text.isSome)] ++
    ((locale.map Text.encode).getD [] ++ (text.map Text.encode).getD [])

def Reference.encode {id : NodeID} (r : Reference id) : Bytes :=
  [UInt8.ofNat r.typeEnc] ++ r.typeBody ++ ([r.forward] ++ (r.target.encode ++ (little 2 r.browseNs.toNat ++
    (r.browseName.encode ++ (localized r.locale r.text ++ (little 4 r.nodeClass.toNat ++ r.typeDefinition.encode))))))

theorem reads_flagged {α β : Type} {p : Reader β} {mask bit : Nat} {o : Option α} {encode : α → Bytes}
    {value : α → β} {absent : β} (hbit : mask &&& bit ≠ 0 ↔ o.isSome = true)
    (h : ∀ x, Reads p (encode x) (value x)) :
    Reads (flagged mask bit p absent) ((o.map encode).getD []) ((o.map value).getD absent) := by
  cases o with
  | none =>
    rw [flagged, if_neg (by simp [hbit])]
    exact Reads.pure absent
  | some x =>
    rw [flagged, if_pos (by simp [hbit])]
    exact h x

theorem mask_spec : ∀ enc < 6, ∀ uri index : Bool,
    let mask := enc + flag 0x80 uri + flag 0x40 index
    (UInt8.ofNat mask).toNat &&& 0x3f = enc ∧ ((UInt8.ofNat mask).toNat &&& 0x80 ≠ 0 ↔ uri = true) ∧
      ((UInt8.ofNat mask).toNat &&& 0x40 ≠ 0 ↔ index = true) ∧
        (6 ≤ (UInt8.ofNat mask).toNat ↔ uri = true ∨ index = true) := by
  decide

theorem reads_taken {α : Type} {p : Reader α} {text : Bytes} {value : α} (h : Reads p text value) :
    Reads (taken p) text (value, text) := by
  intro rest
  simp only [taken, StateT.run_bind, StateT.run_get, Option.pure_def, bind_eq_bind, bind_some, h rest,
    StateT.run_pure, take_taken]

theorem Expanded.reads {id : Option NodeID} (e : Expanded id) :
    Reads readExpandedNodeID e.encode
      (e.nodeBytes, (e.uri.map Text.value).getD [], (e.index.map BitVec.toNat).getD 0) := by
  obtain ⟨hform, huri, hindex, -⟩ := mask_spec e.enc e.form.enc_lt e.uri.isSome e.index.isSome
  have hskip := e.form.reads_skip
  rw [← hform] at hskip
  exact (reads_taken ((reads_u8 _).bind hskip.bind_pure)).bind
    ((reads_flagged huri reads_str).bind (reads_flagged hindex reads_u32_little).bind_pure)

theorem reads_localized (locale text : Option Text) :
    Reads readLocalizedText (localized locale text) ((locale.map Text.value).getD [], (text.map Text.value).getD []) := by
  have hmask : ∀ locale text : Bool, let mask := (UInt8.ofNat (flag 0x01 locale + flag 0x02 text)).toNat
      (mask &&& 0x01 ≠ 0 ↔ locale = true) ∧ (mask &&& 0x02 ≠ 0 ↔ text = true) := by decide
  obtain ⟨hlocale, htext⟩ := hmask locale.isSome text.isSome
  exact (reads_u8 _).bind ((reads_flagged hlocale reads_str).bind (reads_flagged htext reads_str).bind_pure)

theorem Reference.reads {id : NodeID} (r : Reference id) :
    Reads readReferenceDescription r.encode
      ⟨decodedID ([UInt8.ofNat r.typeEnc] ++ r.typeBody), r.forward.toNat != 0, decodedID r.target.nodeBytes,
        (r.target.uri.map Text.value).getD [], (r.target.index.map BitVec.toNat).getD 0, r.browseNs.toNat,
        r.browseName.value, (r.text.map Text.value).getD [], r.nodeClass.toNat⟩ :=
  r.typeForm.reads_readNodeIdRaw.bind ((reads_u8 _).bind (r.target.reads.bind ((reads_u16 _).bind ((reads_str _).bind
    ((reads_localized _ _).bind ((reads_u32_little _).bind r.typeDefinition.reads.bind_pure))))))

theorem decodeNodeID_of_le {c : UInt8} (body : Bytes) (h : 6 ≤ c.toNat) : decodeNodeID.run ([c] ++ body) = none := by
  obtain ⟨k, hk⟩ := Nat.exists_eq_add_of_le' h
  rw [decodeNodeID, StateT.run_bind, reads_u8, hk]
  rfl

/-- With a flag in its first byte the target is no plain node id. -/
theorem Expanded.decodedID_nodeBytes {id : NodeID} (e : Expanded (some id)) :
    decodedID e.nodeBytes = if e.uri = none ∧ e.index = none then id else .numeric 0 0 := by
  split
  next h =>
    have hdecode := e.form.reads_decodeNodeID []
    have hmask : e.mask = e.enc := by simp [mask, h.1, h.2, flag]
    rw [List.append_nil] at hdecode
    rw [decodedID, nodeBytes, hmask, hdecode]
    rfl
  next h =>
    have hflags := (mask_spec e.enc e.form.enc_lt e.uri.isSome e.index.isSome).2.2.2
    rw [decodedID, nodeBytes, mask, decodeNodeID_of_le _ (hflags.mpr _)]
    · rfl
    · rw [isSome_iff_ne_none, isSome_iff_ne_none]
      exact not_and_or.mp h

theorem readReferenceDescription_target_iff {id : NodeID} (r : Reference id) (rest : Bytes) :
    (∃ reference, readReferenceDescription.run (r.encode ++ rest) = some (reference, rest) ∧
      reference.targetNodeID = id ∧ reference.targetNamespaceURI = (r.target.uri.map Text.value).getD [] ∧
      reference.targetServerIndex = (r.target.index.map BitVec.toNat).getD 0) ↔
    (r.target.uri = none ∧ r.target.index = none) ∨ id = .numeric 0 0 := by
  have htarget := r.target.decodedID_nodeBytes
  rw [r.reads rest]
  constructor
  · rintro ⟨reference, ⟨⟩, hid, -⟩
    grind
  · intro h
    refine ⟨_, rfl, ?_, rfl, rfl⟩
    grind

/-- The node 85 of another server. -/
def remoteReference : Reference (.numeric 0 85) where
  typeEnc := 0
  typeBody := [35]
  typeForm := .twoByte 35
  forward := 1
  target := ⟨0, [85], .twoByte 85, none, some 1⟩
  browseNs := 0
  browseName := ⟨[], true, by decide, fun _ => rfl⟩
  locale := none
  text := none
  nodeClass := 1
  typeDefinition := ⟨0, [61], .twoByte 61, none, none⟩

theorem remoteReference_target_lost :
    (readReferenceDescription.run remoteReference.encode).map
        (fun read => (read.1.targetNodeID, read.1.targetServerIndex)) =
      some (.numeric 0 0, 1) := by
  decide

end Nodra.Opcua
