import Nodra.Lib.JsonText

/-! Decoding a JSON object into a struct, field by field, with the rules of
`encoding/json`: names match in any (ASCII) case, later members win, and a
top-level `null` is the zero value. -/
namespace Nodra.JsonStruct
open Lines JsonString JsonText

def lowerByte (c : UInt8) : UInt8 := if 0x41 ≤ c ∧ c ≤ 0x5a then c + 0x20 else c

def fieldName (key : Bytes) : Bytes := key.map lowerByte

def isNull (text : Bytes) : Bool :=
  match skipWord (ascii "null") (skipSpace text) with
  | some rest => decide (skipSpace rest = [])
  | none => false

def readString (old raw : Bytes) : Option Bytes :=
  if raw = ascii "null" then some old
  else (expect 0x22 raw).bind fun body => (unquote body).map Prod.fst

variable {σ : Type}

def unmarshal (setField : σ → Bytes × Bytes → Option σ) (zero : σ) (text : Bytes) : Option σ :=
  match parseObject text with
  | some fields => fields.foldlM setField zero
  | none => if isNull text then some zero else none

theorem readString_quote (old s : Bytes) (h : isValid s = true) :
    readString old (quote s) = some s := by
  have hnull : quote s ≠ ascii "null" := by
    simp only [quote, ne_eq]
    intro heq
    exact absurd (List.cons.inj heq).1 (by decide)
  have hopen : expect 0x22 (quote s) = some ((runes s).flatMap quoteRune ++ [0x22]) := rfl
  rw [readString, if_neg hnull, hopen, Option.bind_some, unquote_quote s [] h]
  rfl

theorem unmarshal_renderObject (setField : σ → Bytes × Bytes → Option σ) (zero : σ)
    (fields : List (Bytes × Bytes))
    (h : ∀ field ∈ fields, isValid field.1 = true ∧ IsCompact field.2) :
    unmarshal setField zero (renderObject fields) = fields.foldlM setField zero := by
  unfold unmarshal
  rw [parseObject_renderObject _ h]

end Nodra.JsonStruct
