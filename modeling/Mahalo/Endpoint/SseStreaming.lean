/-
`sse_response` and `sse_streaming_loop`: from a handler's sender to the connection.

The handler gets a sender and leaves the receiver among the assigns, where
`execute_and_respond` takes it out, writes the head of the response and streams what
is sent.  The sender belongs to some other task of the same thread, which may send
whenever the loop waits: for an event, for the keep-alive interval or for `write_all`.
So a run is a list of turns, of the sender and of the loop, and a turn of the loop says
what the outside answered: whether the interval was over, whether the stream took a
buffer, and how much of it where it failed.

`sent` and `writes` are records, which the code does not have.
-/
import Mahalo.Core.Conn
import Mahalo.Lib.Lts
import Mahalo.Sse

namespace Mahalo.SseStreaming

open RustStd Sse

/-! ### Among the assigns -/

/-- `SseStream`: the receiver of a channel, which is named by a number. -/
structure SseStream where
  rx : Nat
  deriving DecidableEq, Repr

/-- `SseStreamKey`, `SseKeepAliveKey`, and the keys of the application. -/
inductive Key (K : Type) where
  | sseStream
  | sseKeepAlive
  | app (k : K)
  deriving DecidableEq

def Key.Value {K : Type} (β : K → Type) : Key K → Type
  | .sseStream => SseStream
  | .sseKeepAlive => KeepAlive
  | .app k => β k

structure SseOptions where
  keepAlive : Option KeepAlive := none

section

variable {K : Type} [DecidableEq K] {β : K → Type}

/-- `sse_response`, with the receiver of the channel it makes. -/
def sseResponse (conn : Conn (Assigns (Key.Value β))) (options : SseOptions) (rx : Nat) :
    Conn (Assigns (Key.Value β)) :=
  let conn := conn.putStatus statusOk
  let conn := { conn with
    respHeaders := (conn.respHeaders.insert "content-type" (asBytes "text/event-stream")).insert
      "cache-control" (asBytes "no-cache") }
  let conn := conn.assign Key.sseStream ({ rx } : SseStream)
  match options.keepAlive with
  | some ka => conn.assign Key.sseKeepAlive (ka : KeepAlive)
  | none => conn

/-- What `execute_and_respond` takes out of the `Conn` of an executed request. -/
def takeStream (conn : Conn (Assigns (Key.Value β))) :
    Option (SseStream × Option KeepAlive × Conn (Assigns (Key.Value β))) :=
  match conn.takeAssign Key.sseStream with
  | (some stream, conn) =>
      let (keepAlive, conn) := conn.takeAssign Key.sseKeepAlive
      some (stream, keepAlive, conn)
  | (none, _) => none

end

/-! ### The loop -/

inductive Phase where
  /-- in `rx.recv()`, with or without a timeout -/
  | waiting
  /-- in `write_all` of what is left of a buffer -/
  | writing (buf : List UInt8)
  /-- returned, since the sender is gone -/
  | closed
  /-- returned, since a write failed -/
  | broken
  deriving DecidableEq, Repr

structure Stream where
  keepAlive : Option KeepAlive
  /-- the channel: what was sent and not received -/
  queue : List String
  /-- the `SseSender` is there -/
  sender : Bool
  phase : Phase
  /-- the bytes that the connection has taken -/
  wire : List UInt8
  /-- the events that `send` returned `Ok` for -/
  sent : List Event
  /-- the buffers that `write_all` has returned for, and whether it succeeded -/
  writes : List (List UInt8 × Bool)

/-- The receiver is dropped when the loop returns. -/
def Stream.receiver (s : Stream) : Bool :=
  match s.phase with
  | .closed | .broken => false
  | _ => true

inductive Label where
  /-- `SseSender::send` -/
  | send (event : Event)
  /-- the `SseSender` is dropped -/
  | dropSender
  /-- `rx.recv()` returns -/
  | recv
  /-- `timeout` gives up -/
  | elapsed
  /-- `write_all` returns `Ok` -/
  | wrote
  /-- `write_all` returns `Err`, behind so many bytes -/
  | failed (taken : Nat)

/-- `SseSender::send`; with the receiver gone the event is dropped and the sender is told. -/
def Stream.send (s : Stream) (event : Event) : Stream :=
  if s.receiver then { s with queue := SseSender.send s.queue event, sent := s.sent ++ [event] } else s

/-- `rx.recv()` on the channel: it returns at once with a message, or with none from a closed channel. -/
def Stream.recv (s : Stream) : Option Stream :=
  match s.queue with
  | data :: queue => some { s with queue, phase := .writing (asBytes data) }
  | [] => if s.sender then none else some { s with phase := .closed }

def step (s : Stream) : Label → Option Stream
  | .send event => if s.sender then some (s.send event) else none
  | .dropSender => if s.sender then some { s with sender := false } else none
  | .recv =>
      match s.phase with
      | .waiting => s.recv
      | _ => none
  | .elapsed =>
      match s.phase, s.keepAlive with
      | .waiting, some ka => some { s with phase := .writing ka.commentBytes }
      | _, _ => none
  | .wrote =>
      match s.phase with
      | .writing buf =>
          some { s with phase := .waiting, wire := s.wire ++ buf, writes := s.writes ++ [(buf, true)] }
      | _ => none
  | .failed taken =>
      match s.phase with
      | .writing buf =>
          some { s with
            queue := []
            phase := .broken
            wire := s.wire ++ buf.take taken
            writes := s.writes ++ [(buf, false)] }
      | _ => none

/-- The end of `execute_and_respond` for a stream: the head of the response, and then the loop. -/
def system (head : List UInt8) (keepAlive : Option KeepAlive) : Lts.System Stream Label where
  init :=
    { keepAlive, queue := [], sender := true, phase := .writing head, wire := [], sent := [], writes := [] }
  step := step

end Mahalo.SseStreaming
