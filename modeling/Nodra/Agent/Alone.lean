import Nodra.Agent.Forward
import Nodra.Server.Alone

/-! `flush` in one piece, against a server that answers every request, with the bodies
that go over the wire. -/
namespace Nodra.Agent
open Model Std Server Interleave Lines JsonString JsonText

structure Wire where
  utf8 : String → Bytes
  time : Time → Bytes
  payload : Any → Bytes

def renderArray : List Bytes → Bytes
  | [] => ascii "[]"
  | value :: rest => 0x5b :: (value ++ rest.flatMap (0x2c :: ·)) ++ [0x5d]

def encodeHeaders (wire : Wire) (headers : ExtTreeMap String String) : Bytes :=
  if headers.isEmpty then ascii "null"
  else renderObject (headers.toList.map fun header => (wire.utf8 header.1, quote (wire.utf8 header.2)))

def encodeEvent (wire : Wire) (ev : Event) : Bytes :=
  renderObject
    [(ascii "event_id", quote (wire.utf8 ev.id)),
      (ascii "event_time", quote (wire.time ev.eventTime)),
      (ascii "headers", encodeHeaders wire ev.headers),
      (ascii "payload", wire.payload ev.payload),
      (ascii "topic", quote (wire.utf8 ev.topic))]

def encodeBatch (wire : Wire) (cfg : Config) (batch : List Event) : Bytes :=
  renderObject
    [(ascii "events", renderArray (batch.map (encodeEvent wire))),
      (ascii "site_id", quote (wire.utf8 cfg.siteID))]

def encodeSingle (wire : Wire) (cfg : Config) (ev : Event) : Bytes :=
  renderObject
    [(ascii "event_id", quote (wire.utf8 ev.id)),
      (ascii "event_time", quote (wire.time ev.eventTime)),
      (ascii "headers", encodeHeaders wire ev.headers),
      (ascii "payload", wire.payload ev.payload),
      (ascii "site_id", quote (wire.utf8 cfg.siteID)),
      (ascii "topic", quote (wire.utf8 ev.topic))]

/-- The two programs of a call of `flush`: what the agent writes on the wire, and the server
that answers it. -/
structure Setting where
  env : Env
  cfg : Config
  wire : Wire
  choice : EventIn → Server.Choice
  maxBodyBytes : Nat

section

variable (setting : Setting)

def post (w : World) (request : Request) (body : Bytes) : World × Reply :=
  let answered := handle setting.env.server setting.choice setting.maxBodyBytes w.server request body
  ({ w with server := answered.1 }, answered.2)

def postBatch (w : World) (batch : List Event) : World × Reply :=
  post setting w (batchRequest setting.cfg batch) (encodeBatch setting.wire setting.cfg batch)

def postSingle (w : World) (ev : Event) : World × Reply :=
  post setting w (eventRequest setting.cfg ev) (encodeSingle setting.wire setting.cfg ev)

def flushOneByOne : List Event → World → World
  | [], w => w
  | ev :: items, w =>
    let posted := postSingle setting w ev
    if isSuccess posted.2.code then flushOneByOne items (deleteSpooled posted.1 ev.id)
    else posted.1

def deleteAccepted (ok : List String) : List Event → World → World × Bool
  | [], w => (w, true)
  | ev :: batch, w =>
    if ev.id ∈ ok then deleteAccepted ok batch (deleteSpooled w ev.id) else (w, false)

def flushBatches (items : List Event) (w : World) : World :=
  if items = [] then w
  else
    let batch := items.take batchSize
    let posted := postBatch setting w batch
    match verdict posted.2 with
    | .stop => posted.1
    | .oneByOne goOn =>
      let w := flushOneByOne setting batch posted.1
      if goOn then flushBatches (items.drop batchSize) w else w
    | .delete ok =>
      let deleted := deleteAccepted ok batch posted.1
      if deleted.2 then flushBatches (items.drop batchSize) deleted.1 else deleted.1
termination_by items.length
decreasing_by
  all_goals
    have hpos := List.length_pos_iff.mpr ‹¬ items = []›
    simp only [List.length_drop, batchSize]
    omega

/-- `flush`, with every call of the spool successful and every request answered. -/
def flush (w : World) : World := flushBatches setting w.spool.values w

end

end Nodra.Agent
