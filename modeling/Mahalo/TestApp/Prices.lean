/-
`/api/prices/stream`: from the PubSub server to a browser.

The handler makes an SSE response, subscribes to the prices and spawns a task, which
takes one message after the other off its receiver and sends those that tell of a price
as events.  The task, the server's loop over the stream and the thread of the PubSub
server run beside each other, and beside the server's other clients, so a label is one
step of one of them.

The reply channel of a `Subscribe` is new for each call; it is named by the place of the
call among the commands that the server's queue has accepted.
-/
import Mahalo.Endpoint.SseStreaming
import Mahalo.TestApp.Store

namespace Mahalo.TestApp

open PubSub (Server)
open Sse (Event KeepAlive)

/-- The event that the task makes of a message. -/
def priceEvent (serde : SerdeJson) (msg : PubSubMessage) : Event :=
  (Event.default.withEvent "price_updated").withJsonData (.ok (serde.toText msg.payload))

/-- The task, if it was spawned, and the stream that it feeds. -/
structure Relay where
  /-- the receiver -/
  rx : Option Nat
  /-- how many messages were taken off it -/
  received : Nat
  running : Bool
  stream : SseStreaming.Stream

structure PriceStream where
  server : Server
  /-- the reply channel that the handler waits on, or has waited on -/
  asked : Option Nat
  relay : Option Relay

/-- The sender of a subscriber to the prices is there. -/
def holdsSender (server : Server) (rx : Nat) : Bool :=
  server.phase != .stopped && ((server.topics.lookup "prices").getD []).contains rx

/-- The loop has ended, and receiver and sender are dropped. -/
def Relay.stop (r : Relay) : Relay := { r with running := false, stream := { r.stream with sender := false } }

/-- One round of the task's loop. -/
def Relay.tryRecv (serde : SerdeJson) (server : Server) (r : Relay) : Option (Server × Relay) :=
  match r.running, r.rx with
  | true, some rx =>
      match (server.chans[rx]?).bind fun c => c.sent[r.received]? with
      | some msg =>
          let r := { r with received := r.received + 1 }
          if msg.event = "price_updated" then
            if r.stream.receiver then some (server, { r with stream := r.stream.send (priceEvent serde msg) })
            else some (server.drop rx, r.stop)
          else some (server, r)
      | none => if holdsSender server rx then some (server, r) else some (server.drop rx, r.stop)
  | _, _ => none

inductive PriceLabel where
  /-- a step of the PubSub server, or of another client -/
  | pubsub (l : PubSub.Label)
  /-- the handler sends its `Subscribe` -/
  | ask
  /-- the handler gets its reply, and spawns the task -/
  | answered (rx : Nat)
  /-- the handler gets none, since the server has returned -/
  | unanswered
  | tryRecv
  /-- a step of the server's loop over the stream -/
  | stream (l : SseStreaming.Label)

/-- What others do: their reply channels are new, and the handler's receiver is not theirs to drop. -/
def PriceStream.others (s : PriceStream) : PubSub.Label → Bool
  | .client (.subscribe _ reply) => reply == s.server.enqueued.length
  | .drop id => !(s.asked.any fun reply => s.server.replies.contains (reply, id))
  | _ => true

def PriceStream.step (serde : SerdeJson) (opened : SseStreaming.Stream) (s : PriceStream) :
    PriceLabel → Option PriceStream
  | .pubsub l =>
      if s.others l then (PubSub.step s.server l).map fun server => { s with server } else none
  | .ask =>
      if s.asked.isNone && s.relay.isNone && s.server.phase != .stopped then
        let reply := s.server.enqueued.length
        some { s with server := s.server.enqueue (PubSub.subscribe "prices" reply), asked := some reply }
      else none
  | .answered rx =>
      match s.asked, s.relay with
      | some reply, none =>
          if s.server.replies.contains (reply, rx) then
            some { s with relay := some { rx := some rx, received := 0, running := true, stream := opened } }
          else none
      | _, _ => none
  | .unanswered =>
      if s.relay.isNone && s.server.phase = .stopped && s.asked.all (fun reply => s.server.replies.all (·.1 != reply))
      then
        some { s with relay := some {
          rx := none, received := 0, running := false, stream := { opened with sender := false } } }
      else none
  | .tryRecv =>
      (s.relay.bind (·.tryRecv serde s.server)).map fun (server, r) => { s with server, relay := some r }
  | .stream l =>
      match s.relay, l with
      | some _, .send _ | some _, .dropSender | none, _ => none
      | some r, l => (SseStreaming.step r.stream l).map fun stream => { s with relay := some { r with stream } }

/-- The route's keep-alive. -/
def pricesKeepAlive : KeepAlive := KeepAlive.new ⟨15, 0⟩

/-- A client of `/api/prices/stream`, whose response starts with a head. -/
def priceSystem (serde : SerdeJson) (head : List UInt8) : Lts.System PriceStream PriceLabel where
  init := { server := .start, asked := none, relay := none }
  step := PriceStream.step serde (SseStreaming.system head (some pricesKeepAlive)).init

end Mahalo.TestApp
