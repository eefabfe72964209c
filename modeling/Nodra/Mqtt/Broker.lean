import Nodra.Lib.Program
import Nodra.Mqtt.Access
import Nodra.Mqtt.Packets

/-! The broker: every connection a program whose steps are what the source does under one lock.
Connections and persistent sessions are numbered, and the numbers stand for the pointers. -/
namespace Nodra.Mqtt
open Lines Router Std Interleave Program

structure StoredMsg where
  id : String
  topic : String
  payload : Bytes
  qos : Nat
deriving DecidableEq

/-- A call of `Publish`: the connection that makes it, and the number of the packet it is made for. -/
structure Call where
  conn : Nat
  index : Nat
deriving DecidableEq

structure Queued where
  msg : StoredMsg
  filter : String
  call : Call
deriving DecidableEq

structure Dir where
  inode : Nat
  items : OrderedMap String Queued := .empty

/-- `clientID` is the id the session was opened for, `items` what its queue holds in memory. -/
structure PersistentSession where
  clientID : String := ""
  subs : List Subscription := []
  live : Option Nat := none
  items : OrderedMap String Queued := .empty
  inode : Nat := 0
  closed : Bool := false
  seq : Nat := 0

inductive OutPhase where
  | awaitPubrec
  | awaitPubcomp
deriving DecidableEq

structure Pending where
  msg : Message
  index : Nat
deriving DecidableEq

structure Client where
  closed : Bool := false
  username : Option String := none
  subs : List Subscription := []
  session : Option Nat := none
  qos2Pending : ExtTreeMap Nat Pending := ∅
  nextOutID : Nat := 0
  qos2Out : ExtTreeMap Nat OutPhase := ∅
  pubWindow : Int := 0
  pubCount : Nat := 0

/-- What a client does, where it matters: it turns to a connection, sends a packet on it, or
receives the next answer to a message of its own. -/
inductive ClientEvent where
  | moves (conn : Nat)
  | offers (conn : Nat) (packet : Packet)
  | receives (conn : Nat)
deriving DecidableEq

/-- What happened, for the statements about runs.  The `index` of a message is the number of its
PUBLISH on the connection. -/
inductive Observation where
  | read (conn index : Nat) (packet : Packet)
  | wrote (conn : Nat) (reply : Reply)
  | handled (conn index : Nat) (msg : Message) (ok : Bool)
  | acked (conn index : Nat) (msg : Message)
  /-- A message of QoS 2 is held back, and a PUBREL lets go of the one there is. -/
  | held (conn index pid : Nat)
  | released (conn index pid : Nat) (found : Option Nat)
  /-- A session is made over the messages that its directory has. -/
  | opened (i : Nat) (entries : List Queued)
  /-- The connection has its session, and then the filters of the session. -/
  | joining (conn i : Nat)
  | joined (conn i : Nat)
  | leaving (conn : Nat)
  | left (conn i : Nat)
  | granted (i : Nat) (subs : List Subscription)
  /-- A call of `Publish` begins, finds a filter of a connection or of a session, and ends. -/
  | publishing (call : Call) (msg : Message)
  | matched (call : Call) (target : Nat) (sub : Subscription)
  | selected (call : Call) (i : Nat) (sub : Subscription)
  | sent (call : Call) (target pid : Nat) (filter : String) (msg : Message)
  /-- The number of the next message of a session is taken for a call. -/
  | reserved (call : Call) (i number : Nat)
  | queued (i : Nat) (entry : Queued)
  | published (call : Call) (msg : Message)
  /-- The replay of a session begins with a list, and a message that was sent is deleted. -/
  | listed (conn i : Nat) (entries : List Queued)
  | replayed (conn i pid : Nat) (entry : Queued)
  | deleted (conn i : Nat) (entry : Queued)
  /-- A CONNECT with a clean session takes the session out of the map, and then its directory. -/
  | discarding (conn : Nat) (clientID : String) (found : Option Nat)
  | discarded (conn : Nat) (clientID : String)
  | client (event : ClientEvent)
  | restarted
deriving DecidableEq

structure Broker where
  known : List Nat := []
  clients : List Nat := []
  client : Nat → Client := fun _ => {}
  sessions : OrderedMap String Nat := .empty
  session : Nat → PersistentSession := fun _ => {}
  nextSession : Nat := 0
  dirs : String → Option Dir := fun _ => none
  nextInode : Nat := 0
  history : List Observation := []

structure Config where
  handler : Bool := true
  authenticate : Option (String → String → Bool) := none
  authorize : Option (String → String → Bool → Bool) := none
  maxClients : Nat := 0
  maxPublishPerMinute : Nat := 0
  sessionDir : Bool := true

/-- What the environment gives a step: whether its call fails, the clock, and the order in which
a map is walked. -/
structure Choice where
  fails : Bool := false
  now : Int := 0
  shuffle : (xs : List Nat) → { ys : List Nat // ys.Perm xs } := fun xs => ⟨xs, .refl xs⟩

instance : Inhabited Choice := ⟨{}⟩

inductive Point where
  | accept
  | read (packet : Packet)
  | write (target : Nat) (reply : Reply)
  | handle (msg : Message)
  | resume (clientID : String)
  | publish (msg : Message)
  | put (i : Nat)
  | delete (i : Nat)
  | leave
  | client (event : ClientEvent)
  | step
deriving DecidableEq

structure Label where
  conn : Nat
  point : Point := .step
deriving DecidableEq

abbrev Proc := Program Label Broker Choice

/-- How a connection ends: `serve` returns, or it never goes on, as it was not taken or is in a
loop without an end. -/
inductive Exit where
  | returned
  | halted
deriving DecidableEq

abbrev Act := ExceptT Exit Proc

def Broker.setClient (b : Broker) (conn : Nat) (f : Client → Client) : Broker :=
  { b with client := Function.update b.client conn (f (b.client conn)) }

def Broker.setSession (b : Broker) (i : Nat) (f : PersistentSession → PersistentSession) : Broker :=
  { b with session := Function.update b.session i (f (b.session i)) }

def Broker.observe (b : Broker) (o : List Observation) : Broker := { b with history := b.history ++ o }

section

variable (conn : Nat)

def act {α : Type} (f : Choice → Broker → Broker × Except Exit α) (point : Point := .step) : Act α :=
  ExceptT.mk (.access { conn, point } f)

def look {α : Type} (f : Broker → α) : Act α := act conn fun _ b => (b, .ok (f b))

def update (f : Broker → Broker) (point : Point := .step) : Act Unit := act conn (fun _ b => (f b, .ok ())) point

def walk (f : Broker → List Nat) (point : Point := .step) (meaning : List Observation := []) :
    Act (List Nat) :=
  act conn (fun choice b => (b.observe meaning, .ok (choice.shuffle (f b)).1)) point

/-- A write to the connection `target`; what it means is observed if it does not fail. -/
def write (target : Nat) (reply : Reply) (meaning : List Observation) : Act Bool :=
  act conn (fun choice b =>
    if choice.fails || (b.client target).closed then (b, .ok false)
    else (b.observe (.wrote target reply :: meaning), .ok true)) (.write target reply)

/-- A reply to the connection itself; the connection ends if it cannot be written. -/
def answer (reply : Reply) (meaning : List Observation) : Act Unit := do
  if ← write conn conn reply meaning then pure () else throw .returned

def Broker.register (b : Broker) : Broker :=
  { b with known := conn :: b.known }.setClient conn fun _ => {}

def accept (cfg : Config) : Act Unit :=
  act conn (fun _ b =>
    if conn ∈ b.known then (b, .error .halted)
    else
      let b := b.register conn
      if cfg.maxClients > 0 ∧ b.clients.length ≥ cfg.maxClients then (b, .error .halted)
      else ({ b with clients := conn :: b.clients }, .ok ())) .accept

end

def Broker.changeQueue (b : Broker) (i : Nat) (f : OrderedMap String Queued → OrderedMap String Queued) :
    Broker :=
  let s := b.session i
  { b.setSession i fun s => { s with items := f s.items } with
    dirs := Function.update b.dirs s.clientID ((b.dirs s.clientID).map fun dir =>
      if dir.inode = s.inode then { dir with items := f dir.items } else dir) }

/-- The call of a queue, which may fail and does if the queue is closed.  The queues have the policy
`reject`: a put over the limit fails and leaves the rest alone. -/
def changeQueue (conn i : Nat) (f : OrderedMap String Queued → OrderedMap String Queued) (point : Point)
    (meaning : Bool → List Observation) : Act Unit :=
  act conn (fun choice b =>
    (if choice.fails || (b.session i).closed then b.observe (meaning false)
      else (b.changeQueue i f).observe (meaning true), .ok ())) point

def Broker.newSession (b : Broker) (clientID : String) (dir : Dir) : Broker :=
  { b with
    sessions := b.sessions.put clientID b.nextSession
    session := Function.update b.session b.nextSession { clientID, items := dir.items, inode := dir.inode }
    nextSession := b.nextSession + 1
    dirs := Function.update b.dirs clientID (some dir)
    nextInode := b.nextInode + 1 }

def resumeSession (conn : Nat) (clientID : String) : Act (Nat × Bool) :=
  act conn (fun choice b =>
    match b.sessions.get? clientID with
    | some i => (b.observe [.joining conn i], .ok (i, true))
    | none =>
      if choice.fails then (b, .error .returned)
      else
        let dir := (b.dirs clientID).getD { inode := b.nextInode }
        ((b.newSession clientID dir).observe
            [.opened b.nextSession dir.items.values, .joining conn b.nextSession],
          .ok (b.nextSession, (b.dirs clientID).isSome))) (.resume clientID)

def discardSession (conn : Nat) (clientID : String) : Act Unit := do
  let found ← act conn fun _ b =>
    ({ b with sessions := b.sessions.remove clientID }.observe
        [.discarding conn clientID (b.sessions.get? clientID)],
      .ok (b.sessions.get? clientID))
  found.forM fun i => update conn fun b => b.setSession i fun s => { s with closed := true }
  act conn fun choice b =>
    ((if choice.fails then b else { b with dirs := Function.update b.dirs clientID none }).observe
      [.discarded conn clientID], .ok ())

def enqueue (call : Call) (i : Nat) (topic : String) (payload : Bytes) (qos : Nat) (filter : String) :
    Act Unit := do
  let id ← act call.conn fun _ b =>
    ((b.setSession i fun s => { s with seq := s.seq + 1 }).observe [.reserved call i ((b.session i).seq + 1)],
      .ok ("m" ++ toString ((b.session i).seq + 1)))
  let entry := { msg := { id, topic, payload, qos }, filter, call }
  changeQueue call.conn i (fun items => items.put id entry) (.put i) fun ok => if ok then [.queued i entry] else []

/-- The loop of `nextOutPacketID`: it does not end while every id is in use. -/
def freeID (busy : Nat → Bool) : (fuel id : Nat) → Option Nat
  | 0, _ => none
  | fuel + 1, id =>
    let id := if (id + 1) % 2 ^ 16 = 0 then 1 else (id + 1) % 2 ^ 16
    if busy id then freeID busy fuel id else some id

def nextOutPacketID (conn target : Nat) : Act Nat :=
  act conn fun _ b =>
    let cl := b.client target
    match freeID (fun id => cl.qos2Out.contains id) (2 ^ 16) cl.nextOutID with
    | none => (b, .error .halted)
    | some id => (b.setClient target fun cl => { cl with nextOutID := id }, .ok id)

def sendPublish (conn target : Nat) (topic : String) (payload : Bytes) (qos : Nat) (dup : Bool)
    (meaning : Nat → List Observation) : Act Bool := do
  let pid ← (if qos > 0 then nextOutPacketID conn target else pure 0)
  -- registered before the write, or an answer could come too early
  (if qos = 2 then
    update conn fun b =>
      b.setClient target fun cl => { cl with qos2Out := cl.qos2Out.insert pid .awaitPubrec }
  else pure ())
  let ok ← write conn target (.publish topic payload qos dup pid) (meaning pid)
  (if !ok && qos = 2 then
    update conn fun b => b.setClient target fun cl => { cl with qos2Out := cl.qos2Out.erase pid }
  else pure ())
  pure ok

def matching (topic : String) (subs : List Subscription) : Option Subscription :=
  subs.find? fun sub => isMatch sub.filter topic

def publishLive (call : Call) (msg : Message) (target : Nat) : Act Unit := do
  let found ← act call.conn fun _ b =>
    let found := matching msg.topic (b.client target).subs
    (b.observe (found.toList.map (.matched call target)), .ok found)
  match found with
  | some sub =>
    discard (sendPublish call.conn target msg.topic msg.payload (min msg.qos sub.qos) false
      fun pid => [.sent call target pid sub.filter msg])
  | none => pure ()

def publishQueued (call : Call) (msg : Message) (i : Nat) : Act Unit := do
  if ← look call.conn fun b => (b.session i).live.isSome then pure ()
  else
    let found ← act call.conn fun _ b =>
      let found := matching msg.topic (b.session i).subs
      (b.observe (found.toList.map (.selected call i)), .ok found)
    match found with
    | some sub => enqueue call i msg.topic msg.payload (min msg.qos sub.qos) sub.filter
    | none => pure ()

def publish (cfg : Config) (call : Call) (msg : Message) : Act Unit := do
  (← walk call.conn Broker.clients (.publish msg) [.publishing call msg]).forM (publishLive call msg)
  (if cfg.sessionDir then do
    (← walk call.conn fun b => b.sessions.values).forM (publishQueued call msg)
  else pure ())
  update call.conn fun b => b.observe [.published call msg]

def replayMessage (conn i : Nat) (entry : Queued) : Act Unit := do
  let msg := entry.msg
  if ← sendPublish conn conn msg.topic msg.payload msg.qos (msg.qos > 0)
      fun pid => [.replayed conn i pid entry] then
    changeQueue conn i (fun items => items.remove msg.id) (.delete i) fun _ => [.deleted conn i entry]
  else throw .returned

def replay (conn i : Nat) : Act Unit := do
  let entries ← act conn fun _ b =>
    (b.observe [.listed conn i (b.session i).items.values], .ok (b.session i).items.values)
  entries.forM (replayMessage conn i)

section

variable (cfg : Config) (conn : Nat)

def permit (username topic : String) (write : Bool) : Bool :=
  match cfg.authorize with
  | none => true
  | some authorize => authorize username topic write

def username : Act String := look conn fun b => (b.client conn).username.getD ""

def minute : Int := 60 * 10 ^ 9

def Client.count (cl : Client) (now : Int) : Client :=
  let cl := if cl.pubWindow = 0 ∨ now - cl.pubWindow ≥ minute then
    { cl with pubWindow := now, pubCount := 0 } else cl
  { cl with pubCount := cl.pubCount + 1 }

def underPublishCap : Act Bool :=
  act conn fun choice b =>
    if cfg.maxPublishPerMinute = 0 then (b, .ok true)
    else
      (b.setClient conn (·.count choice.now),
        .ok (((b.client conn).count choice.now).pubCount ≤ cfg.maxPublishPerMinute))

def takeOver (clientID : String) : Act Bool := do
  let (i, existed) ← resumeSession conn clientID
  update conn fun b => b.setClient conn fun cl => { cl with session := some i }
  update conn fun b => b.setSession i fun s => { s with live := some conn }
  update conn fun b =>
    (b.setClient conn fun cl => { cl with subs := (b.session i).subs }).observe [.joined conn i]
  pure existed

def Config.admits (info : ConnectInfo) : Bool :=
  match cfg.authenticate with
  | none => true
  | some authenticate => authenticate info.username info.password

def requireAuth (info : ConnectInfo) : Act Unit :=
  if !cfg.admits info then do
    discard (write conn conn (.connack false 4) [])
    throw .returned
  else pure ()

def openSession (info : ConnectInfo) : Act Bool :=
  if !cfg.sessionDir then pure false
  else if info.cleanSession then do
    discardSession conn info.clientID
    pure false
  else takeOver conn info.clientID

def onConnect (payload : Bytes) : Act Unit := do
  match parseConnect payload with
  | none => throw .returned
  | some info =>
    requireAuth cfg conn info
    update conn fun b => b.setClient conn fun cl => { cl with username := some info.username }
    let present ← openSession cfg conn info
    answer conn (.connack present 0) []
    (← look conn fun b => (b.client conn).session).forM (replay conn)

def handle (index : Nat) (msg : Message) : Act Unit :=
  if cfg.handler then
    act conn (fun choice b => (b.observe [.handled conn index msg !choice.fails], .ok ())) (.handle msg)
  else pure ()

def requireCap : Act Unit := do
  if ← underPublishCap cfg conn then pure () else throw .returned

def requireWrite (topic : String) : Act Unit := do
  if permit cfg (← username conn) topic true then pure ()
  else throw .returned

def Broker.hold (b : Broker) (pid : Nat) (pending : Pending) : Broker :=
  (b.setClient conn fun cl => { cl with qos2Pending := cl.qos2Pending.insert pid pending }).observe
    [.held conn pending.index pid]

def Broker.release (b : Broker) (index pid : Nat) : Broker :=
  (b.setClient conn fun cl => { cl with qos2Pending := cl.qos2Pending.erase pid }).observe
    [.released conn index pid ((b.client conn).qos2Pending[pid]?.map Pending.index)]

def onPublish (index flags : Nat) (payload : Bytes) : Act Unit := do
  match parsePublish flags payload with
  | none => throw .returned
  | some (msg, pid) =>
    requireCap cfg conn
    requireWrite cfg conn msg.topic
    if msg.qos = 2 then
      update conn fun b => b.hold conn pid { msg, index }
      answer conn (.pubrec pid) []
    else
      handle cfg conn index msg
      publish cfg ⟨conn, index⟩ msg
      if msg.qos = 1 then discard (write conn conn (.puback pid) [.acked conn index msg]) else pure ()

def onPubrec (payload : Bytes) : Act Unit := do
  match readID payload with
  | none => throw .returned
  | some (pid, _) =>
    let awaited ← act conn fun _ b =>
      if (b.client conn).qos2Out.contains pid then
        (b.setClient conn fun cl => { cl with qos2Out := cl.qos2Out.insert pid .awaitPubcomp }, .ok true)
      else (b, .ok false)
    if awaited then answer conn (.pubrel pid) [] else pure ()

def onPubrel (index : Nat) (payload : Bytes) : Act Unit := do
  match readID payload with
  | none => throw .returned
  | some (pid, _) =>
    let pending ← act conn fun _ b => (b.release conn index pid, .ok (b.client conn).qos2Pending[pid]?)
    match pending with
    | some { msg, index := published } =>
      requireWrite cfg conn msg.topic
      handle cfg conn published msg
      publish cfg ⟨conn, index⟩ msg
      answer conn (.pubcomp pid) [.acked conn published msg]
    | none => answer conn (.pubcomp pid) []

def onPubcomp (payload : Bytes) : Act Unit := do
  match readID payload with
  | none => throw .returned
  | some (pid, _) =>
    update conn fun b => b.setClient conn fun cl => { cl with qos2Out := cl.qos2Out.erase pid }

def onSubscribe (payload : Bytes) : Act Unit := do
  match parseSubscribe payload with
  | none => throw .returned
  | some (pid, subs) =>
    let username ← username conn
    let granted := subs.filter fun sub => permit cfg username sub.filter false
    let codes := subs.map fun sub => if permit cfg username sub.filter false then sub.qos else 0x80
    let all ← act conn fun _ b =>
      (b.setClient conn fun cl => { cl with subs := cl.subs ++ granted },
        .ok ((b.client conn).subs ++ granted))
    (← look conn fun b => (b.client conn).session).forM fun i =>
      update conn fun b => (b.setSession i fun s => { s with subs := all }).observe [.granted i all]
    answer conn (.suback pid codes) []

def onClientPacket (index : Nat) (packet : Packet) : Act Unit :=
  match packet.typ with
  | 3 => onPublish cfg conn index packet.flags packet.payload
  | 5 => onPubrec conn packet.payload
  | 6 => onPubrel cfg conn index packet.payload
  | 7 => onPubcomp conn packet.payload
  | _ => onSubscribe cfg conn packet.payload

/-- One turn of the loop of `serve`: whether the connection is a client's after it. -/
def onPacket (connected : Bool) (index : Nat) (packet : Packet) : Act Bool :=
  if packet.typ = 1 then
    if connected then throw .returned
    else do
      onConnect cfg conn packet.payload
      pure true
  else if packet.typ = 12 then do
    answer conn .pingresp []
    pure connected
  else if packet.typ = 14 then throw .returned
  else if packet.typ ∈ [3, 5, 6, 7, 8] then
    if connected then do
      onClientPacket cfg conn index packet
      pure true
    else throw .returned
  else pure connected

/-- The loop of `serve`; the end of the packets is an error of the connection. -/
def serveLoop (connected : Bool) (index : Nat) : List Packet → Act Unit
  | [] => throw .returned
  | packet :: rest => do
    update conn (fun b => b.observe [.read conn index packet]) (.read packet)
    let connected ← onPacket cfg conn connected index packet
    serveLoop connected (index + 1) rest

def close : Act Unit := do
  update conn (fun b => (b.setClient conn fun cl => { cl with closed := true }).observe [.leaving conn]) .leave
  update conn fun b => { b with clients := b.clients.erase conn }
  (← look conn fun b => (b.client conn).session).forM fun i =>
    update conn fun b =>
      (b.setSession i fun s => if s.live = some conn then { s with live := none } else s).observe [.left conn i]

def reserve : Act Unit :=
  act conn (fun _ b =>
    if conn ∈ b.known then (b, .error .halted) else ({ b with known := conn :: b.known }, .ok ())) .accept

def publishCall (msg : Message) : Act Unit := do
  reserve conn
  publish cfg ⟨conn, 0⟩ msg

def serve (stream : Bytes) : Act Unit := do
  accept conn cfg
  tryCatch (serveLoop cfg conn false 0 (readPackets stream)) fun
    | .returned => close conn
    | .halted => throw .halted

end

section

/-- Connections, and calls of `Publish`.  A step is taken only where it is `enabled`; no two
threads have the same number. -/
def brokerSystem (cfg : Config) (enabled : Label → Choice → Broker → Prop) :
    System Broker (Program Label Broker Choice (Except Exit Unit)) Choice where
  starts := fun t => ∃ conn, (∃ stream, t = (serve cfg conn stream).run) ∨
    ∃ msg, t = (publishCall cfg conn msg).run
  next := Program.next
  allowed := fun choice b t rest => ∀ label ∈ t.label?, enabled label choice b ∧
    ∀ u ∈ rest, ∀ label' ∈ u.label?, label'.conn ≠ label.conn

variable (cfg : Config) {enabled : Label → Choice → Broker → Prop} (oracle : Label → Choice)

def serveAll : List (Nat × Bytes) → Broker → Broker
  | [], b => b
  | (conn, stream) :: rest, b => serveAll rest ((serve cfg conn stream).run.eval oracle b).1

def PassesAll (enabled : Label → Choice → Broker → Prop) : List (Nat × Bytes) → Broker → Prop
  | [], _ => True
  | (conn, stream) :: rest, b => (serve cfg conn stream).run.Passes oracle enabled b ∧
    PassesAll enabled rest ((serve cfg conn stream).run.eval oracle b).1

instance decidablePassesAll [∀ label choice b, Decidable (enabled label choice b)] :
    (streams : List (Nat × Bytes)) → (b : Broker) → Decidable (PassesAll cfg oracle enabled streams b)
  | [], _ => isTrue trivial
  | (conn, stream) :: rest, b =>
    have : Decidable (PassesAll cfg oracle enabled rest ((serve cfg conn stream).run.eval oracle b).1) :=
      decidablePassesAll _ _
    inferInstanceAs (Decidable ((serve cfg conn stream).run.Passes oracle enabled b ∧ _))

theorem run_serveAll {streams : List (Nat × Bytes)} {b : Broker}
    (h : PassesAll cfg oracle enabled streams b) :
    (brokerSystem cfg enabled).Run ⟨b, 0⟩ ⟨serveAll cfg oracle streams b, 0⟩ := by
  induction streams generalizing b with
  | nil => exact .refl
  | cons stream rest ih =>
    refine Relation.ReflTransGen.trans ?_ (ih h.2)
    refine Program.run_alone (brokerSystem cfg enabled) rfl ?_ oracle _ ⟨_, .inl ⟨_, rfl⟩⟩ b h.1
    exact fun _ _ _ hok label hlabel => ⟨hok label hlabel, fun u hu => absurd hu (Multiset.notMem_zero u)⟩

inductive Job where
  | connection (conn : Nat) (stream : Bytes)
  | call (conn : Nat) (msg : Message)

def Job.thread (cfg : Config) : Job → Program Label Broker Choice (Except Exit Unit)
  | .connection conn stream => (serve cfg conn stream).run
  | .call conn msg => (publishCall cfg conn msg).run

theorem Job.starts (job : Job) : (brokerSystem cfg enabled).starts (job.thread cfg) := by
  cases job with
  | connection conn stream => exact ⟨conn, .inl ⟨stream, rfl⟩⟩
  | call conn msg => exact ⟨conn, .inr ⟨msg, rfl⟩⟩

theorem run_brokerScript (script : List (Scene Job Choice)) (b : Broker)
    (h : Follows enabled (fun label label' => label.conn ≠ label'.conn) (b, [])
      (script.flatMap (Scene.moves (Job.thread cfg)))) :
    (brokerSystem cfg enabled).Run ⟨b, 0⟩
      ⟨(play (Job.thread cfg) script b).1, (play (Job.thread cfg) script b).2⟩ :=
  run_of_play _ rfl (fun _ _ _ _ h => h) (Job.starts cfg) script b h

end

end Nodra.Mqtt
