import Nodra.Lib.OrderedMap
import Nodra.Queue.Record

/-! The durable queue: an in-memory map, and the bytes of `queue.wal` behind it.

`file` operations succeed, except that the write of an append may be cut short:
`Cut` says which append of a call fails and how many bytes of its line reach the
file.  A Go map has no order; `items` keeps one only so that the loops over it
are functions. -/
namespace Nodra
open Lines JsonText

namespace Queue

inductive Policy where
  | reject
  | dropOldest
  | dropNewest
deriving DecidableEq

def Policy.parse : String → Option Policy
  | "" => some .reject
  | "reject" => some .reject
  | "drop-oldest" => some .dropOldest
  | "drop-newest" => some .dropNewest
  | _ => none

structure Options where
  maxItems : Int := 0
  maxBytes : Int := 0
  policy : String := ""

structure Settings where
  maxItems : Int
  maxBytes : Int
  policy : Policy
deriving DecidableEq

inductive OpenError where
  | dirRequired
  | invalidPolicy (policy : String)
  | replayWal
  | replayValue
  | tooLong
deriving DecidableEq

def OpenError.text : OpenError → String
  | .dirRequired => "queue dir is required"
  | .invalidPolicy policy => "invalid queue policy " ++ policy.quote
  | .replayWal => "replay queue wal: "
  | .replayValue => "replay value: "
  | .tooLong => "bufio.Scanner: token too long"

inductive Error where
  | idRequired
  | full
  | write
deriving DecidableEq

def Error.text : Error → Option String
  | .idRequired => some "queue id is required"
  | .full => some "durable queue is full"
  | .write => none

structure Entry (T : Type) where
  id : Bytes
  seq : Nat
  data : T
  bytes : Int
deriving DecidableEq

structure Contents (T : Type) where
  items : OrderedMap Bytes (Entry T) := .empty
  seq : Nat := 0
  bytes : Int := 0
deriving DecidableEq

end Queue

structure Queue (T : Type) extends Queue.Contents T where
  settings : Queue.Settings
  ops : Nat := 0
  wal : Bytes := []
deriving DecidableEq

namespace Queue

structure Stats where
  items : Nat
  bytes : Int
  maxItems : Int
  maxBytes : Int
  policy : Policy
deriving DecidableEq

def scanLimit : Nat := 16 * 2 ^ 20

def compactAt : Nat := 4096

def nextSeq (seq : Nat) : Nat := (seq + 1) % 2 ^ 64

variable {T : Type}

def Contents.bytesOf (c : Contents T) (id : Bytes) : Int :=
  match c.items.get? id with
  | some old => old.bytes
  | none => 0

def Contents.drop (c : Contents T) (id : Bytes) : Contents T :=
  { c with bytes := c.bytes - c.bytesOf id, items := c.items.remove id }

/-- Set an entry.  `oldBytes` is what the caller subtracts for the entry it saw
under this id. -/
def Contents.set (c : Contents T) (id : Bytes) (seq : Nat) (v : T) (size oldBytes : Int) :
    Contents T :=
  { c with items := c.items.put id ⟨id, seq, v, size⟩, bytes := c.bytes - oldBytes + size }

def Contents.bump (c : Contents T) : Contents T := { c with seq := nextSeq c.seq }

def Contents.replayLine (codec : Codec T) (c : Contents T) (line : Bytes) :
    Except OpenError (Contents T) :=
  match Record.unmarshal line with
  | none => .error .replayWal
  | some r =>
    let c := { c with seq := max c.seq r.seq }
    match r.op with
    | .put =>
      match codec.unmarshal r.data with
      | none => .error .replayValue
      | some v => .ok (c.set r.id r.seq v r.data.length (c.bytesOf r.id))
    | .del => .ok (c.drop r.id)
    | .other _ => .ok c

def replay (codec : Codec T) : Option Bytes → Except OpenError (Contents T)
  | none => .ok {}
  | some wal => Lines.replay scanLimit .tooLong (Contents.replayLine codec) {} wal

def openWithOptions (codec : Codec T) (dir : String) (opts : Options) (wal : Option Bytes) :
    Except OpenError (Queue T) :=
  if dir = "" then .error .dirRequired
  else
    match Policy.parse opts.policy with
    | none => .error (.invalidPolicy opts.policy)
    | some policy =>
      match replay codec wal with
      | .error err => .error err
      | .ok contents =>
        .ok { contents with
          settings := ⟨opts.maxItems, opts.maxBytes, policy⟩
          wal := wal.getD [] }

/-- The entries by sequence number, as `List` and `compactLocked` sort them. -/
def Contents.sorted (c : Contents T) : List (Entry T) :=
  c.items.values.insertionSort fun a b => a.seq ≤ b.seq

def Contents.list (c : Contents T) : List T := c.sorted.map Entry.data

def Contents.get (c : Contents T) (id : Bytes) : Option T := (c.items.get? id).map Entry.data

def stats (q : Queue T) : Stats :=
  ⟨q.items.size, q.bytes, q.settings.maxItems, q.settings.maxBytes, q.settings.policy⟩

def putRecord (codec : Codec T) (id : Bytes) (seq : Nat) (v : T) : Record :=
  ⟨.put, id, seq, codec.marshal v⟩

def delRecord (id : Bytes) (seq : Nat) : Record := ⟨.del, id, seq, []⟩

def compactLocked (codec : Codec T) (q : Queue T) : Queue T :=
  { q with
    wal := join (q.sorted.map fun e => (putRecord codec e.id e.seq e.data).marshal)
    ops := 0 }

/-- The append number `after` of a call, counted from 0, stops after `written` bytes. -/
structure Cut where
  after : Nat
  written : Nat
deriving DecidableEq

def Cut.here : Option Cut → Option Nat
  | some ⟨0, written⟩ => some written
  | _ => none

def Cut.later : Option Cut → Option Cut
  | some ⟨after + 1, written⟩ => some ⟨after, written⟩
  | _ => none

abbrev Outcome (T : Type) (α : Type) := Except (Error × Queue T) α

def appendLocked (codec : Codec T) (cut : Option Nat) (q : Queue T) (r : Record) :
    Outcome T (Queue T) :=
  let line := r.marshal ++ [newline]
  match cut with
  | some written => .error (.write, { q with wal := q.wal ++ line.take written })
  | none =>
    let q := { q with wal := q.wal ++ line, ops := q.ops + 1 }
    if q.ops ≥ compactAt then .ok (q.compactLocked codec) else .ok q

def Contents.overLimit (c : Contents T) (settings : Settings) (addItems addBytes : Int) : Bool :=
  (settings.maxItems > 0 && c.items.size + addItems > settings.maxItems) ||
    (settings.maxBytes > 0 && c.bytes + addBytes > settings.maxBytes)

def Contents.oldestIDLocked (c : Contents T) : Bytes :=
  (c.items.entries.foldl
    (fun best entry =>
      if best.1 = [] ∨ entry.2.seq < best.2 then (entry.1, entry.2.seq) else best)
    (([], 0) : Bytes × Nat)).1

/-- The loop of the drop-oldest policy.  Each round drops an entry, so the number
of items is enough fuel. -/
def dropOldest (codec : Codec T) (addItems addBytes : Int) :
    Nat → Option Cut → Queue T → Outcome T (Queue T × Option Cut)
  | 0, cut, q => .ok (q, cut)
  | fuel + 1, cut, q =>
    if q.overLimit q.settings addItems addBytes ∧ q.items.size > 0 then
      let oid := q.oldestIDLocked
      let q := { q with toContents := q.bump }
      match q.appendLocked codec (Cut.here cut) (delRecord oid q.seq) with
      | .error failed => .error failed
      | .ok q =>
        dropOldest codec addItems addBytes fuel (Cut.later cut)
          { q with toContents := q.drop oid }
    else .ok (q, cut)

/-- The part of `Put` that applies the policy of a queue over its limits. -/
def makeRoom (codec : Codec T) (cut : Option Cut) (q : Queue T) (addItems addBytes : Int) :
    Outcome T (Queue T × Option Cut) :=
  if q.overLimit q.settings addItems addBytes then
    match q.settings.policy with
    | .dropNewest => .error (.full, q)
    | .dropOldest =>
      match q.dropOldest codec addItems addBytes q.items.size cut with
      | .error failed => .error failed
      | .ok (q, cut) =>
        if q.overLimit q.settings addItems addBytes then .error (.full, q) else .ok (q, cut)
    | .reject => .error (.full, q)
  else .ok (q, cut)

def Contents.addItems (c : Contents T) (id : Bytes) : Int := if id ∈ c.items then 0 else 1

def Contents.addBytes (codec : Codec T) (c : Contents T) (id : Bytes) (v : T) : Int :=
  (codec.marshal v).length - c.bytesOf id

def put (codec : Codec T) (cut : Option Cut) (q : Queue T) (id : Bytes) (v : T) :
    Outcome T (Queue T) :=
  if id = [] then .error (.idRequired, q)
  else
    let oldBytes := q.bytesOf id
    match q.makeRoom codec cut (q.addItems id) (q.addBytes codec id v) with
    | .error failed => .error failed
    | .ok (q, cut) =>
      let q := { q with toContents := q.bump }
      match q.appendLocked codec (Cut.here cut) (putRecord codec id q.seq v) with
      | .error failed => .error failed
      | .ok q =>
        .ok { q with toContents := q.set id q.seq v (codec.marshal v).length oldBytes }

def delete (codec : Codec T) (cut : Option Cut) (q : Queue T) (id : Bytes) :
    Outcome T (Queue T) :=
  if id ∈ q.items then
    let q := { q with toContents := q.bump }
    match q.appendLocked codec (Cut.here cut) (delRecord id q.seq) with
    | .error failed => .error failed
    | .ok q => .ok { q with toContents := q.drop id }
  else .ok q

inductive Call (T : Type) where
  | put (id : Bytes) (v : T)
  | delete (id : Bytes)

def call (codec : Codec T) (cut : Option Cut) (q : Queue T) : Call T → Outcome T (Queue T)
  | .put id v => q.put codec cut id v
  | .delete id => q.delete codec cut id

def after : Outcome T (Queue T) → Queue T
  | .ok q => q
  | .error (_, q) => q

end Queue

end Nodra
