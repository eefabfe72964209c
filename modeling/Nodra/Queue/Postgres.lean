import Nodra.Model.Types
import Nodra.Queue.Model

/-! The queue that replicas share: a table in Postgres, whose rows are claimed for a time.
Each definition is one SQL statement; a table lists its rows in the order of `seq`. -/
namespace Nodra.PostgresQueue
open Model

structure Claim where
  owner : String
  since : Time
deriving DecidableEq

structure Row (T : Type) where
  data : T
  claim : Option Claim := none
deriving DecidableEq

abbrev Table (T : Type) := OrderedMap String (Row T)

variable {T : Type}

def list (t : Table T) : List T := t.values.map Row.data

def get (t : Table T) (id : String) : Option T := (t.get? id).map Row.data

structure Stats where
  items : Int := 0
  bytes : Int := 0

def stats (size : T → Int) (t : Table T) : Stats where
  items := t.size
  bytes := ((list t).map size).sum

def limited (opts : Queue.Options) : Bool := opts.maxItems > 0 || opts.maxBytes > 0

def full (opts : Queue.Options) (st : Stats) (there : Bool) (addBytes : Int) : Bool :=
  let addItems := if there then 0 else 1
  (opts.maxItems > 0 && st.items + addItems > opts.maxItems) ||
    (opts.maxBytes > 0 && st.bytes + addBytes > opts.maxBytes)

/-- The write of `Put`: the row gets a new `seq` and loses its claim. -/
def insert (t : Table T) (id : String) (v : T) : Table T := t.put id { data := v }

def leaseOf (lease : Time) : Time := if lease ≤ 0 then 10 ^ 9 else lease

def claimable (lease now : Time) : Option Claim → Bool
  | none => true
  | some claim => claim.since < now - leaseOf lease

def claimed (t : Table T) (id owner : String) (now : Time) : Table T :=
  t.modify id fun row => { row with claim := some ⟨owner, now⟩ }

def tryClaim (t : Table T) (id owner : String) (lease now : Time) : Option (Table T) :=
  if (t.get? id).any fun row => claimable lease now row.claim then some (claimed t id owner now)
  else none

def releaseClaim (t : Table T) (id : String) : Table T :=
  t.modify id fun row => { row with claim := none }

end Nodra.PostgresQueue
