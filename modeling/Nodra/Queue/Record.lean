import Nodra.Lib.JsonNumber
import Nodra.Lib.JsonStruct

/-! One line of `queue.wal`: the JSON object of a `record`, read back with the
rules of `encoding/json` for a struct with four fields. -/
namespace Nodra.Queue
open Lines JsonString JsonText JsonNumber JsonStruct List

inductive Op where
  | put
  | del
  | other (name : Bytes)
deriving DecidableEq

def Op.name : Op → Bytes
  | .put => ascii "put"
  | .del => ascii "del"
  | .other name => name

def Op.ofName (name : Bytes) : Op :=
  if name = ascii "put" then .put else if name = ascii "del" then .del else .other name

structure Record where
  op : Op := .other []
  id : Bytes := []
  seq : Nat := 0
  data : Bytes := []
deriving DecidableEq

def Record.fields (r : Record) : List (Bytes × Bytes) :=
  [(ascii "op", quote r.op.name), (ascii "id", quote r.id), (ascii "seq", decimal r.seq)] ++
    if r.data = [] then [] else [(ascii "data", r.data)]

def Record.marshal (r : Record) : Bytes := renderObject r.fields

def Record.setField (r : Record) (field : Bytes × Bytes) : Option Record :=
  let name := fieldName field.1
  if name = ascii "op" then
    (readString r.op.name field.2).map fun value => { r with op := .ofName value }
  else if name = ascii "id" then
    (readString r.id field.2).map fun value => { r with id := value }
  else if name = ascii "seq" then
    if field.2 = ascii "null" then some r
    else (parseUint 64 field.2).map fun value => { r with seq := value }
  else if name = ascii "data" then some { r with data := field.2 }
  else some r

def Record.unmarshal (line : Bytes) : Option Record := JsonStruct.unmarshal Record.setField {} line

/-- A record the encoder can carry: its strings are UTF-8, its sequence number
fits, and its data is a JSON value. -/
structure Record.Carried (r : Record) : Prop where
  op : r.op = .put ∨ r.op = .del
  id : isValid r.id = true
  seq : r.seq < 2 ^ 64
  data : r.data = [] ∨ IsCompact r.data

variable {r : Record}

private theorem isValid_name (h : r.Carried) : isValid r.op.name = true := by
  rcases h.op with hop | hop <;> rw [hop] <;> decide

theorem Record.Carried.fields_valid (h : r.Carried) :
    ∀ field ∈ r.fields, isValid field.1 = true ∧ IsCompact field.2 := by
  have hnames : ∀ name ∈ [ascii "op", ascii "id", ascii "seq", ascii "data"],
      isValid name = true := by decide
  intro field hfield
  simp only [Record.fields, mem_append, mem_cons, not_mem_nil, or_false] at hfield
  rcases hfield with (rfl | rfl | rfl) | hdata
  · exact ⟨hnames _ (by simp), isCompact_quote _ (isValid_name h)⟩
  · exact ⟨hnames _ (by simp), isCompact_quote _ h.id⟩
  · exact ⟨hnames _ (by simp), isCompact_decimal _⟩
  · split at hdata
    · simp at hdata
    · rename_i hne
      rw [mem_singleton] at hdata
      rw [hdata]
      exact ⟨hnames _ (by simp), h.data.resolve_left hne⟩

private theorem decimal_ne_null (n : Nat) : decimal n ≠ ascii "null" := by
  intro heq
  have hdigit := isDigit_of_mem_decimal n 0x6e (by rw [heq]; decide)
  simp [isDigit] at hdigit

private theorem ofName_name (h : r.Carried) : Op.ofName r.op.name = r.op := by
  rcases h.op with hop | hop <;> rw [hop] <;> decide

theorem Record.unmarshal_marshal (h : r.Carried) : unmarshal r.marshal = some r := by
  have hop (x : Record) : x.setField (ascii "op", quote r.op.name) = some { x with op := r.op } := by
    have hname : fieldName (ascii "op") = ascii "op" := by decide
    simp [setField, hname, readString_quote _ _ (isValid_name h), ofName_name h]
  have hid (x : Record) : x.setField (ascii "id", quote r.id) = some { x with id := r.id } := by
    have hname : fieldName (ascii "id") = ascii "id" := by decide
    have hne : ascii "id" ≠ ascii "op" := by decide
    simp [setField, hname, hne, readString_quote _ _ h.id]
  have hseq (x : Record) : x.setField (ascii "seq", decimal r.seq) = some { x with seq := r.seq } := by
    have hname : fieldName (ascii "seq") = ascii "seq" := by decide
    have hne : ascii "seq" ≠ ascii "op" ∧ ascii "seq" ≠ ascii "id" := by decide
    simp [setField, hname, hne, decimal_ne_null, parseUint_decimal h.seq]
  have hdata (x : Record) : x.setField (ascii "data", r.data) = some { x with data := r.data } := by
    have hname : fieldName (ascii "data") = ascii "data" := by decide
    have hne : ascii "data" ≠ ascii "op" ∧ ascii "data" ≠ ascii "id" ∧
        ascii "data" ≠ ascii "seq" := by decide
    simp [setField, hname, hne]
  unfold unmarshal marshal
  rw [unmarshal_renderObject _ _ _ h.fields_valid]
  simp only [fields, foldlM_append, foldlM_cons, foldlM_nil, hop, hid, hseq,
    Option.bind_eq_bind, Option.bind_some, Option.pure_def]
  split
  · rename_i hnil
    simp [hnil.symm]
  · simp [hdata]

theorem Record.Carried.isLine (h : r.Carried) {limit : Nat}
    (hlimit : r.marshal.length < limit) : IsLine limit r.marshal :=
  isLine_renderObject _ (fun field hfield => (h.fields_valid field hfield).2) hlimit

theorem Record.marshal_ne_nil (r : Record) : r.marshal ≠ [] := by
  simp [marshal, renderObject]

end Nodra.Queue
