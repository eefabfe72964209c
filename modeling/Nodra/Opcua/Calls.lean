import Nodra.Opcua.SecureChannel

/-! An open channel whose server answers the requests it gets, and a network that decides what
comes in at each call: any of the server's chunks, early, late, again or never, and anything else
that does not verify. -/
namespace Nodra.Opcua

open Nodra.Lines List Option

structure Answer where
  call : Nat
  seqNum : Nat
  body : Bytes

structure Link where
  session : Session
  requests : List Bytes
  answers : List Answer

/-- One `serviceCall`: what it asks, the answers that the server sends before the client reads,
and what the network then lets through. -/
structure Call where
  expected : Nat
  reqBody : Bytes
  answered : List Answer
  stream : Bytes

section

variable (p : Primitives) (opened : Session) (k : ChannelKeys)

def requestID (n : Nat) : Nat := (opened.reqID + n + 1) % 2 ^ 32

def Answer.chunk (a : Answer) : Option Bytes :=
  symmetricChunk p opened.mode k.serverSigning k.serverEncrypting k.serverIV msg opened.channelID
    opened.tokenID a.seqNum (requestID opened a.call) a.body

def Link.serve (l : Link) (c : Call) : Link × Option Bytes :=
  let served := serviceCall p l.session c.expected c.reqBody c.stream
  (⟨served.1, l.requests ++ [c.reqBody], l.answers ++ c.answered⟩, served.2)

/-- The server answers a request once, after it was sent and in a chunk whose size it can announce;
and nobody else makes what the client takes for a message of the server. -/
structure Genuine (l : Link) (c : Call) : Prop where
  asked : ∀ a ∈ c.answered, a.call ≤ l.requests.length
  once : ((l.answers ++ c.answered).map Answer.call).Nodup
  sized : ∀ a ∈ c.answered, ∀ chunk, a.chunk p opened k = some chunk → chunk.length < 2 ^ 32
  unforged : ∀ body, readSecureMessage p (l.serve p c).1.session c.stream = some (msg, body) →
    ∃ a ∈ l.answers ++ c.answered, ∃ chunk, a.chunk p opened k = some chunk ∧ chunk <+: c.stream

/-- A chunk that comes in carries the request id of the call, and the ids have not gone round. -/
structure Fresh (l : Link) (c : Call) : Prop where
  early : l.requests.length < 2 ^ 32
  current : ∀ id, receivedRequestID p l.session c.stream = some id → id = (l.session.reqID + 1) % 2 ^ 32

inductive Reached (ok : Link → Call → Prop) : Link → Prop where
  | opened : Reached ok ⟨opened, [], []⟩
  | serve {l : Link} {c : Call} : Reached ok l → ok l c → Reached ok (l.serve p c).1

end

variable {p : Primitives} {opened : Session} {k : ChannelKeys} {l : Link} {c : Call}

/-- What stays of the opened session, and how far its requests are counted. -/
structure Counted (p : Primitives) (opened : Session) (k : ChannelKeys) (l : Link) : Prop where
  keys : l.session.keys = some k
  mode : l.session.mode = opened.mode
  number : l.session.reqID % 2 ^ 32 = (opened.reqID + l.requests.length) % 2 ^ 32
  asked : ∀ a ∈ l.answers, a.call < l.requests.length
  sized : ∀ a ∈ l.answers, ∀ chunk, a.chunk p opened k = some chunk → chunk.length < 2 ^ 32

theorem serviceCall_session {s : Session} (hkeys : s.keys = some k) (expected : Nat) (reqBody stream : Bytes) :
    (serviceCall p s expected reqBody stream).1 =
      { s with seqNum := (s.seqNum + 1) % 2 ^ 32, reqID := (s.reqID + 1) % 2 ^ 32 } := by
  simp only [serviceCall, writeSymmetricMessage, hkeys]

theorem Counted.serve (h : Counted p opened k l) (hc : Genuine p opened k l c) :
    Counted p opened k (l.serve p c).1 := by
  have hsession := serviceCall_session h.keys c.expected c.reqBody c.stream (p := p)
  refine ⟨?_, ?_, ?_, ?_, ?_⟩
  · simp only [Link.serve, hsession]
    exact h.keys
  · simp only [Link.serve, hsession]
    exact h.mode
  · have hnumber := h.number
    simp only [Link.serve, hsession, length_append, length_singleton]
    omega
  · intro a ha
    simp only [Link.serve, length_append, length_singleton]
    rcases mem_append.mp ha with ha | ha
    · exact Nat.lt_succ_of_lt (h.asked a ha)
    · exact Nat.lt_succ_of_le (hc.asked a ha)
  · intro a ha
    rcases mem_append.mp ha with ha | ha
    · exact h.sized a ha
    · exact hc.sized a ha

theorem Answer.received {a : Answer} {s : Session} {chunk : Bytes} (hkeys : s.keys = some k)
    (hmode : s.mode = opened.mode) (hchunk : a.chunk p opened k = some chunk) (hsized : chunk.length < 2 ^ 32)
    (rest : Bytes) :
    readSecureMessage p s (chunk ++ rest) = some (msg, a.body) ∧
      receivedRequestID p s (chunk ++ rest) = some (requestID opened a.call) := by
  rw [Answer.chunk, ← hmode] at hchunk
  have hread := readSecureMessage_chunk hkeys hchunk hsized rest
  rwa [requestID, Nat.mod_mod] at hread

def firstAnswer : Answer := ⟨0, 4, [1, 0, 122, 2, 21]⟩

end Nodra.Opcua
