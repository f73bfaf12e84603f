/-
`handle_connection`: the HTTP phase of a connection.

A cycle of the main loop either reads into a leased buffer and looks for one
request there, or hands the accumulation buffer to `vec_read_loop`, which reads
behind what the buffer holds and takes every complete request off its front.  What
the connection does, a request executed or bytes written, is recorded in order, and
the outside answers by the position in that record: what the awaits of a request's
plugs give, whether a write succeeds, which date line a response gets.  The buffer
pool decides cycle by cycle whether there is a lease.

The loops take fuel, and `Proofs/Endpoint/Server.lean` shows that it does not run
out.  `resp_buf` is empty between two responses and left out.  The sum that bounds the
accumulation buffer is one of `usize`, so the build says what it is when it overflows.
-/
import Mahalo.Lib.Overflow
import Mahalo.Endpoint.Handler
import Mahalo.Endpoint.HttpParse
import Mahalo.Endpoint.HttpSerialize
import Mahalo.Endpoint.Stream
import Mahalo.Endpoint.WsStreaming

namespace Mahalo.Endpoint

open Interactive Router HttpParse RustStd

variable {A Ω : Type}

/-- What `handle_connection` is given for a connection, besides its stream. -/
structure Server (A Ω : Type) extends App A Ω where
  lib : HttpLib
  rendering : Rendering
  bodyLimit : Nat
  peerAddr : String
  /-- `stream.is_tls()` -/
  isTls : Bool
  /-- `ws_config.is_some()` -/
  websockets : Bool
  /-- the chunks that the SSE stream among the assigns writes until it ends, comments included -/
  sse : A → Option (List (List UInt8))
  profile : Profile

/-- What the outside answers, by the number of events before. -/
structure Outside (Ω : Type) where
  waits : Nat → Nat → Ω
  accepts : Nat → Bool
  date : Nat → List UInt8

/-- The buffer pool and the allocator, by the number of cycles before. -/
structure Buffers where
  leases : Nat → Bool
  /-- how much more than it was asked for the allocator reserves for leftover bytes -/
  excess : Nat → Nat

inductive ServerEvent (A : Type) where
  /-- `execute_request` starts -/
  | execute (conn : Conn A)
  /-- `stream.write_all` of a response -/
  | response (bytes : List UInt8)
  /-- `stream.write_all` of the head or of a chunk of an SSE stream -/
  | sse (bytes : List UInt8)
  /-- `stream.write_all` of a 101 response -/
  | upgrade (bytes : List UInt8)
  /-- `stream.write_all` of `RESPONSE_400` or `RESPONSE_413` -/
  | reject (bytes : List UInt8)

abbrev Log (A : Type) := List (ServerEvent A)

/-- How the main loop ends.  A panic, in the router or of its own, unwinds through it. -/
inductive Stop where
  | close
  | webSocketUpgrade
  | panic
  | outOfFuel
  deriving DecidableEq, Repr

/-! ### One request -/

/-- The answers to the awaits of a request. -/
def Outside.answer (outside : Outside Ω) (event wait : Nat) : (e : Event A Ω) → e.Answer
  | .wait => outside.waits event wait
  | .pipeline _ => ()
  | .handler => ()

/-- `sse_streaming_loop` -/
def sseStreamingLoop (outside : Outside Ω) : Log A → List (List UInt8) → Log A
  | out, [] => out
  | out, chunk :: rest =>
      if outside.accepts out.length then sseStreamingLoop outside (out ++ [.sse chunk]) rest
      else out ++ [.sse chunk]

/-- The end of `execute_and_respond`: an executed request's answer on the stream. -/
def Server.respond (srv : Server A Ω) (outside : Outside Ω) (out : Log A) (conn : Conn A)
    (keepAlive : Bool) : Log A × Option Stop :=
  match conn.assigns.bind srv.sse with
  | some chunks =>
      let out' := out ++ [.sse (serializeSseHeadersInto srv.rendering (outside.date out.length) conn)]
      (if outside.accepts out.length then sseStreamingLoop outside out' chunks else out', some .close)
  | none =>
      (out ++ [.response
          (serializeResponseInto srv.rendering (outside.date out.length) conn keepAlive)],
        if outside.accepts out.length && keepAlive then none else some .close)

/-- `execute_and_respond`; no stop is `RequestOutcome::KeepAlive`. -/
def Server.executeAndRespond (srv : Server A Ω) (outside : Outside Ω) (out : Log A)
    (parsed : ParsedRequest A) : Log A × Option Stop :=
  match parsed.wsKey, srv.websockets with
  | some wsKey, true =>
      (out ++ [.upgrade (serializeWsAcceptResponse srv.rendering wsKey)],
        if outside.accepts out.length then some .webSocketUpgrade else some .close)
  | _, _ =>
      let out' := out ++ [.execute parsed.conn]
      match srv.executeRequest parsed.conn with
      | .error _ => (out', some .panic)
      | .ok run => srv.respond outside out' (run.eval (outside.answer out.length) 0) parsed.keepAlive

/-! ### The accumulation buffer -/

/-- `accum`: a buffer, and the number of valid bytes in it. -/
structure Accum where
  buf : List UInt8
  filled : Nat

/-- `vec![0u8; DEFAULT_BUF_SIZE]` with nothing in it. -/
def Accum.fresh : Accum := { buf := List.replicate defaultBufSize 0, filled := 0 }

/-- `&buf[..filled]` -/
def Accum.contents (a : Accum) : List UInt8 := a.buf.take a.filled

/-- A drained buffer is given up, which switches back to leased reads. -/
def Accum.kept (a : Accum) : Option Accum := if a.filled = 0 then none else some a

/-- How a part of the loop ends: with the buffer for the next read, or with the connection. -/
inductive Parsed (A : Type) where
  | more (accum : Accum) (out : Log A)
  | stop (out : Log A) (stop : Stop) (unread : List UInt8)

def Server.tryParse (srv : Server A Ω) (buf : List UInt8) :
    Except ParseError (Option (ParsedRequest A)) :=
  tryParseRequest srv.lib buf srv.bodyLimit srv.peerAddr

/-- The response to a buffer no request can start with. -/
def rejection : ParseError → List UInt8
  | .bodyTooLarge => response413
  | .invalidRequest => response400

/-- `body_limit + DEFAULT_BUF_SIZE`: the length from which a full buffer is not doubled any more. -/
def Server.maxBuf (srv : Server A Ω) : Option Nat := unsigned srv.profile (srv.bodyLimit + defaultBufSize)

/-- What is done, in two places, to have room in the buffer: a full one is doubled, or it is the end. -/
def Server.makeRoom (srv : Server A Ω) (a : Accum) (out : Log A) : Except (Log A × Stop) Accum :=
  if a.filled = a.buf.length then
    match srv.maxBuf with
    | none => .error (out, .panic)
    | some maxBuf =>
        if a.buf.length ≥ maxBuf then .error (out ++ [.reject response413], .close)
        else .ok { a with buf := resize a.buf (a.buf.length * 2) }
  else .ok a

/-- The parse loop of `vec_read_loop`. -/
def Server.parseLoop (srv : Server A Ω) (outside : Outside Ω) : Nat → Accum → Log A → Parsed A
  | 0, a, out => .stop out .outOfFuel a.contents
  | fuel + 1, a, out =>
      match srv.tryParse a.contents with
      | .ok (some parsed) =>
          match srv.executeAndRespond outside out parsed with
          | (out', some s) => .stop out' s (a.contents.drop parsed.bytesConsumed)
          | (out', none) =>
              -- shift the unconsumed bytes to the front
              let a' : Accum :=
                { buf := copyWithin a.buf parsed.bytesConsumed a.filled
                  filled := a.filled - parsed.bytesConsumed }
              if a'.filled = 0 then .more a' out' else srv.parseLoop outside fuel a' out'
      | .ok none =>
          match srv.makeRoom a out with
          | .ok a' => .more a' out
          | .error (out', s) => .stop out' s a.contents
      | .error e => .stop (out ++ [.reject (rejection e)]) .close a.contents

/-- `vec_read_loop`, with what has yet to arrive when it returns. -/
def Server.vecReadLoop (srv : Server A Ω) (outside : Outside Ω) (a : Accum) (incoming : Incoming)
    (out : Log A) : Parsed A × Incoming :=
  match srv.makeRoom a out with
  | .error (out', s) => (.stop out' s a.contents, incoming)
  | .ok a =>
      -- `split_off(filled)`: the tail is what the read is offered
      match incoming.read (a.buf.drop a.filled).length with
      | (.err, incoming) => (.stop out .close a.contents, incoming)
      | (.ok returned, incoming) =>
          if returned.length = 0 then (.stop out .close a.contents, incoming)
          else
            let a' : Accum := { buf := a.contents ++ returned, filled := a.filled + returned.length }
            (srv.parseLoop outside (a'.filled + 1) a' out, incoming)

/-! ### The leased buffer -/

/-- The leftover of a leased read, in a buffer of its own; none when there is none. -/
def leftoverAccum (excess : Nat) (leftover : List UInt8) : Option Accum :=
  if leftover.isEmpty then none
  else some {
    buf := resize leftover (max defaultBufSize leftover.length + excess)
    filled := leftover.length }

/-- How a leased read ends: with `accum` for the next cycle, or with the connection. -/
inductive Leased (A : Type) where
  | more (accum : Option Accum) (out : Log A)
  | stop (out : Log A) (stop : Stop) (unread : List UInt8)

/-- The match on the one `try_parse_request` that a leased read gets. -/
def Server.parseLeased (srv : Server A Ω) (outside : Outside Ω) (excess : Nat) (lease : List UInt8)
    (out : Log A) : Leased A :=
  match srv.tryParse lease with
  | .ok (some parsed) =>
      let leftover := lease.drop parsed.bytesConsumed
      match srv.executeAndRespond outside out parsed with
      | (out', some s) => .stop out' s leftover
      | (out', none) => .more (leftoverAccum excess leftover) out'
  | .ok none =>
      .more (some { buf := resize lease (max defaultBufSize (lease.length * 2)), filled := lease.length })
        out
  | .error e => .stop (out ++ [.reject (rejection e)]) .close lease

/-! ### The main loop -/

/-- The variables of the loop, what has yet to arrive, what was done, and the cycles so far. -/
structure State (A : Type) where
  accum : Option Accum
  incoming : Incoming
  out : Log A
  cycle : Nat

/-- Everything the connection did, how it ended, the bytes dropped with its buffers, and the rest. -/
structure Outcome (A : Type) where
  out : Log A
  stop : Stop
  unread : List UInt8
  incoming : Incoming

/-- One cycle: the variables for the next, or the outcome. -/
def Server.step (srv : Server A Ω) (outside : Outside Ω) (buffers : Buffers) (s : State A) :
    State A ⊕ Outcome A :=
  match s.accum with
  | some a =>
      match srv.vecReadLoop outside a s.incoming s.out with
      | (.more a' out, incoming) =>
          .inl { accum := a'.kept, incoming, out, cycle := s.cycle + 1 }
      | (.stop out stop unread, incoming) => .inr { out, stop, unread, incoming }
  | none =>
      if srv.isTls || !buffers.leases s.cycle then
        .inl { s with accum := some .fresh, cycle := s.cycle + 1 }
      else
        match s.incoming.readLease with
        | (.err, incoming) => .inr { out := s.out, stop := .close, unread := [], incoming }
        | (.ok lease, incoming) =>
            if lease.length = 0 then .inr { out := s.out, stop := .close, unread := [], incoming }
            else
              match srv.parseLeased outside (buffers.excess s.cycle) lease s.out with
              | .more accum out => .inl { accum, incoming, out, cycle := s.cycle + 1 }
              | .stop out stop unread => .inr { out, stop, unread, incoming }

def Server.run (srv : Server A Ω) (outside : Outside Ω) (buffers : Buffers) :
    Nat → State A → Outcome A
  | 0, s => { out := s.out, stop := .outOfFuel, unread := [], incoming := s.incoming }
  | fuel + 1, s =>
      match srv.step outside buffers s with
      | .inr outcome => outcome
      | .inl s' => srv.run outside buffers fuel s'

def State.init (incoming : Incoming) : State A := { accum := none, incoming, out := [], cycle := 0 }

/-- The main loop of `handle_connection`, with two cycles for each byte and two for the end. -/
def Server.handleConnection (srv : Server A Ω) (outside : Outside Ω) (buffers : Buffers)
    (incoming : Incoming) : Outcome A :=
  srv.run outside buffers (2 * incoming.bytes.length + 2) (.init incoming)

/-- The switch behind the loop: after an upgrade, `ws_streaming_loop` is given the stream. -/
def Outcome.wsReader (outcome : Outcome A) : WsStreaming.Reader := WsStreaming.readerInit outcome.incoming

end Mahalo.Endpoint
