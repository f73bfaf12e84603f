/-
A WebSocket connection from the client's frames to the handler and back.

`execute_and_respond` lays two queues between `ws_streaming_loop` and
`handle_websocket`: `ws_msg` takes the client's texts in and `ws_out` the
channels' messages out.  Four tasks take turns on them: the reader and the
detached writer at the stream, `handle_websocket`, and the process it has
started.  A label is one turn of one of them, or of anything else the process
runs with, so a run is any schedule.

The stream is `WsWire.system` and the process with its surroundings is
`sysSystem`; here they are joined by the queues.  What the source does not keep,
the record of the texts accepted and handled, is kept beside them.
-/
import Mahalo.Channel.Connection
import Mahalo.Endpoint.WsWire

namespace Mahalo.WsConnection

open WsParse WsStreaming WsWire Channels

/-- Who casts a request to the process. -/
inductive Sender where
  /-- `handle_websocket`, with a text of the client -/
  | client
  /-- anyone who has a `ChannelAddr` of the connection -/
  | addr
  deriving DecidableEq, Repr

abbrev Request := Sender × String

/-- The texts of the client among some requests, in order. -/
def clientTexts (requests : List Request) : List String :=
  requests.filterMap fun r => if r.1 = .client then some r.2 else none

/-- The texts the reader sends on `ws_msg_tx` for a frame. -/
def textsOf (f : WsFrame) : List String :=
  (onFrame (fun _ => true) [] f).1.filterMap fun e =>
    match e with
    | .send text => some text
    | .write _ => none

/-- A task has returned, and its ends of the queues are dropped. -/
def hasReturned : Phase → Bool
  | .returned | .broken _ => true
  | .idle | .writing .. => false

structure Session (α Ω : Type) where
  /-- the reader and the writer -/
  stream : Wire
  /-- from `ws_msg_tx` to `ws_msg_rx` -/
  wsMsg : List String
  /-- `handle_websocket` has not returned -/
  relaying : Bool
  /-- the process and all it runs with; `sys.out` is all that was sent on `ws_out_tx` -/
  sys : Sys α Ω
  /-- how much of it the writer has taken from `ws_out_rx` -/
  taken : Nat
  /-- `sys.casts` with the senders, and the request `handle_cast` is at -/
  mailbox : List Request
  handling : Option Request
  /-- the texts `ws_msg_tx.send` took -/
  accepted : List String
  /-- the client's texts from whose `handle_cast` the process has returned -/
  handled : List String

inductive SessionLabel (Ω : Type) where
  /-- a turn at the stream, but for the writer's wait for a message -/
  | stream (l : WsWire.Label)
  /-- `ws_out_rx.recv` gives the writer a message -/
  | recv
  /-- the next turn of `handle_websocket` -/
  | relay
  /-- another task casts through a `ChannelAddr` -/
  | addr (text : String)
  /-- the process, the PubSub server, a forwarder, a timer or a publisher -/
  | process (l : SysLabel Ω)

variable {α Ω : Type}

namespace Session

def init : Session α Ω :=
  { stream := WsWire.system.init, wsMsg := [], relaying := true, sys := Sys.init, taken := 0,
    mailbox := [], handling := none, accepted := [], handled := [] }

/-- A turn at the stream, with what the reader sends. -/
def onStream (s : Session α Ω) : WsWire.Label → Option (Session α Ω)
  | .message _ => none
  | .frame f =>
      -- `if ws_msg_tx.send(text).is_err() { return; }`
      if textsOf f ≠ [] ∧ s.relaying = false then
        (WsWire.step s.stream .hangup).map fun stream => { s with stream }
      else
        (WsWire.step s.stream (.frame f)).map fun stream =>
          { s with stream, wsMsg := s.wsMsg ++ textsOf f, accepted := s.accepted ++ textsOf f }
  | l => (WsWire.step s.stream l).map fun stream => { s with stream }

/-- The writer takes a message and begins to write it. -/
def recv (s : Session α Ω) : Option (Session α Ω) :=
  match s.sys.out[s.taken]? with
  | some msg =>
      (WsWire.step s.stream (.message msg)).map fun stream =>
        { s with stream, taken := s.taken + 1 }
  | none => none

variable [EmptyCollection α] (serde : SerdeJson) (router : ChannelRouter α Ω)

/-- `runtime.kill(pid)`, and `handle_websocket` returns. -/
def kill (s : Session α Ω) : Option (Session α Ω) :=
  (s.sys.step serde router .kill).map fun sys =>
    { s with sys, relaying := false, handling := none }

/-- Casts to the process, if it still takes casts. -/
def cast (s : Session α Ω) (sender : Sender) (text : String) : Option (Session α Ω) :=
  (s.sys.step serde router (.receive text)).map fun sys =>
    { s with sys, mailbox := s.mailbox ++ [(sender, text)] }

/-- One round of the loop of `handle_websocket`, or what comes behind the loop. -/
def relay (s : Session α Ω) : Option (Session α Ω) :=
  if s.relaying then
    match s.wsMsg with
    | text :: rest =>
        match { s with wsMsg := rest }.cast serde router .client text with
        | some s' => some s'
        | none => { s with wsMsg := rest }.kill serde router
    | [] => if hasReturned s.stream.reader then s.kill serde router else none
  else none

/-- A turn of the process or of what it runs with. -/
def process (s : Session α Ω) : SysLabel Ω → Option (Session α Ω)
  | .receive _ | .kill => none
  | .cast =>
      match s.mailbox with
      | request :: mailbox =>
          (s.sys.step serde router .cast).map fun sys =>
            { s with sys, mailbox, handling := some request }
      | [] => none
  | .finish =>
      (s.sys.step serde router .finish).map fun sys =>
        { s with sys, handling := none, handled := s.handled ++ clientTexts s.handling.toList }
  | l =>
      -- a handler may cast to its own process
      (s.sys.step serde router l).map fun sys =>
        { s with sys, mailbox := s.mailbox ++ (sys.casts.drop s.sys.casts.length).map (.addr, ·) }

def step (s : Session α Ω) : SessionLabel Ω → Option (Session α Ω)
  | .stream l => s.onStream l
  | .recv => s.recv
  | .relay => s.relay serde router
  | .addr text => s.cast serde router .addr text
  | .process l => s.process serde router l

end Session

def sessionSystem [EmptyCollection α] (serde : SerdeJson) (router : ChannelRouter α Ω) :
    Lts.System (Session α Ω) (SessionLabel Ω) where
  init := Session.init
  step := Session.step serde router

end Mahalo.WsConnection
