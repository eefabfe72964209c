import Nodra.Lib.Lines

/-! The packets of MQTT 3.1.1 as the broker reads and writes them. -/
namespace Nodra.Mqtt
open Lines

def ofBytes (bytes : Bytes) : String := String.ofList (bytes.map fun b => Char.ofNat b.toNat)

structure Packet where
  typ : Nat
  flags : Nat
  payload : Bytes
deriving DecidableEq

/-- The remaining length, in at most `fuel` bytes of seven bits each. -/
def readRemaining : (fuel n mul : Nat) → Bytes → Option (Nat × Bytes)
  | 0, _, _, _ => none
  | _ + 1, _, _, [] => none
  | fuel + 1, n, mul, b :: rest =>
    let n := n + b.toNat % 128 * mul
    if b.toNat < 128 then some (n, rest) else readRemaining fuel n (mul * 128) rest

def maxPacket : Nat := 2 ^ 24

def readPacket : Bytes → Option (Packet × Bytes)
  | [] => none
  | h :: rest =>
    match readRemaining 4 0 1 rest with
    | none => none
    | some (n, rest) =>
      if n > maxPacket ∨ rest.length < n then none
      else some ({ typ := h.toNat / 16, flags := h.toNat % 16, payload := rest.take n }, rest.drop n)

/-- The packets of a connection, up to its end or to one that cannot be read.  Every packet takes
bytes of its own. -/
def readPackets (stream : Bytes) : List Packet :=
  go stream.length stream
where
  go : Nat → Bytes → List Packet
    | 0, _ => []
    | fuel + 1, stream =>
      match readPacket stream with
      | none => []
      | some (packet, rest) => packet :: go fuel rest

def uint16 (high low : UInt8) : Nat := high.toNat * 256 + low.toNat

def readString : Bytes → Option (String × Bytes)
  | high :: low :: rest =>
    let n := uint16 high low
    if rest.length < n then none else some (ofBytes (rest.take n), rest.drop n)
  | _ => none

def readID : Bytes → Option (Nat × Bytes)
  | high :: low :: rest => some (uint16 high low, rest)
  | _ => none

structure ConnectInfo where
  cleanSession : Bool
  clientID : String
  username : String := ""
  password : String := ""
deriving DecidableEq

def readOptional (present : Bool) (payload : Bytes) : Option (String × Bytes) :=
  if present then readString payload else some ("", payload)

def parseConnect (p : Bytes) : Option ConnectInfo := do
  let (proto, rest) ← readString p
  match rest with
  | level :: flags :: _ :: _ :: payload =>
    if proto ≠ "MQTT" ∨ level ≠ 4 then none
    else
      let (clientID, payload) ← readString payload
      -- the will, its topic and its message, is read and not kept
      let (_, payload) ← readOptional (flags &&& 0x04 ≠ 0) payload
      let (_, payload) ← readOptional (flags &&& 0x04 ≠ 0) payload
      let (username, payload) ← readOptional (flags &&& 0x80 ≠ 0) payload
      if flags &&& 0x40 ≠ 0 ∧ flags &&& 0x80 = 0 then none
      else
        let (password, _) ← readOptional (flags &&& 0x40 ≠ 0) payload
        let cleanSession := flags &&& 0x02 ≠ 0
        if !cleanSession ∧ clientID = "" then none
        else some { cleanSession, clientID, username, password }
  | _ => none

structure Message where
  topic : String
  payload : Bytes
  qos : Nat
  retain : Bool := false
deriving DecidableEq

def parsePublish (flags : Nat) (p : Bytes) : Option (Message × Nat) := do
  let (topic, rest) ← readString p
  let qos := flags / 2 % 4
  if topic = "" ∨ qos > 2 then none
  else
    let (pid, payload) ← if qos > 0 then readID rest else some (0, rest)
    some ({ topic, payload, qos, retain := flags % 2 = 1 }, pid)

structure Subscription where
  filter : String
  qos : Nat
deriving DecidableEq

def readFilters : (fuel : Nat) → Bytes → Option (List Subscription)
  | _, [] => some []
  | 0, _ => none
  | fuel + 1, p => do
    let (filter, rest) ← readString p
    match rest with
    | q :: rest =>
      if q > 2 then none
      else
        let subs ← readFilters fuel rest
        some ({ filter, qos := q.toNat } :: subs)
    | [] => none

def parseSubscribe (p : Bytes) : Option (Nat × List Subscription) := do
  let (pid, rest) ← readID p
  let subs ← readFilters rest.length rest
  if subs = [] then none else some (pid, subs)

inductive Reply where
  | connack (sessionPresent : Bool) (code : Nat)
  | puback (pid : Nat)
  | pubrec (pid : Nat)
  | pubrel (pid : Nat)
  | pubcomp (pid : Nat)
  | suback (pid : Nat) (codes : List Nat)
  | pingresp
  | publish (topic : String) (payload : Bytes) (qos : Nat) (dup : Bool) (pid : Nat)
deriving DecidableEq

def Reply.isAck : Reply → Bool
  | .puback _ | .pubrec _ | .pubcomp _ => true
  | _ => false

def byte (n : Nat) : UInt8 := UInt8.ofNat n

def bytes16 (n : Nat) : Bytes := [byte (n / 256), byte n]

def appendString (text : String) : Bytes := bytes16 (ascii text).length ++ ascii text

def encodeRemaining (n : Nat) : Bytes :=
  if n < 128 then [byte n] else byte (n % 128 + 128) :: encodeRemaining (n / 128)

/-- The bytes of a packet as they are written: the length of a SUBACK is one byte. -/
def Reply.encode : Reply → Bytes
  | .connack sessionPresent code => [0x20, 0x02, if code ≠ 0 then 0 else byte sessionPresent.toNat, byte code]
  | .puback pid => [0x40, 0x02] ++ bytes16 pid
  | .pubrec pid => [0x50, 0x02] ++ bytes16 pid
  | .pubrel pid => [0x62, 0x02] ++ bytes16 pid
  | .pubcomp pid => [0x70, 0x02] ++ bytes16 pid
  | .suback pid codes => [0x90, byte (2 + codes.length)] ++ bytes16 pid ++ codes.map byte
  | .pingresp => [0xd0, 0x00]
  | .publish topic payload qos dup pid =>
    let body := appendString topic ++ (if qos > 0 then bytes16 pid else []) ++ payload
    let header := 0x30 + (if qos = 1 then 0x02 else if qos = 2 then 0x04 else 0) +
      if qos > 0 ∧ dup then 0x08 else 0
    byte header :: encodeRemaining body.length ++ body

def packetOf (header : UInt8) (payload : Bytes) : Bytes := header :: encodeRemaining payload.length ++ payload

/-- The CONNECT of a user without a password; `clean` is the flag of the clean session. -/
def connectOf (clientID username : String) (clean : Bool) : Bytes :=
  packetOf 0x10 (appendString "MQTT" ++ [4, if clean then 0x82 else 0x80, 0, 60] ++
    appendString clientID ++ appendString username)

end Nodra.Mqtt
