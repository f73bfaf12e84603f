/-
`ChannelConnectionServer`: the process of one WebSocket connection.

The handlers are programs.  Their events are everything they do: calling a
channel's callback, what the channel does meanwhile, replies, subscribing,
spawning the forwarder, and changing `joined_channels`.  The process takes one
request at a time, and runs its handler one event at a time, so whatever else
runs in between does so between two events.  The log of a connection is the list
of its events.

`serde_json` is a parameter: how a message is written and read back as text.
-/
import Mahalo.Channel.Channel

namespace Mahalo.Channels

open Interactive

/-- `serde_json::to_string` and `serde_json::from_str` at the two message types. -/
structure SerdeJson where
  phoenixToString : PhoenixMessage → Option String
  phoenixFromStr : String → Option PhoenixMessage
  pubsubToString : PubSubMessage → Option String
  pubsubFromStr : String → Option PubSubMessage

/-- Where a `handle_info` call comes from. -/
inductive InfoSource where
  | timer
  | pubsub
  deriving DecidableEq, Repr

/-- A call of a channel's callback. -/
inductive Call where
  | join
  | started
  | handleIn (event : String) (payload : Value)
  | handleInfo (source : InfoSource) (msg : PubSubMessage)
  | stopping
  | terminate (reason : String)

/-- The replies the connection itself sends. -/
inductive Origin where
  | joinOk (topic : String)
  | joinError (topic : String)
  | leave
  | dispatch
  | heartbeat
  deriving DecidableEq, Repr

/-- `joined_channels` -/
abbrev Joined (α Ω : Type) := AList fun _ : String => Channel α Ω × ChannelSocket α

inductive Event (α Ω : Type) where
  /-- a callback is called with the socket joined as `topic` -/
  | call (call : Call) (topic : String)
  /-- `channel.join` has returned: `Ok` or `Err` -/
  | joinReturned (topic : String) (ok : Bool)
  /-- a channel does something through its socket -/
  | effect (e : Effect)
  /-- the connection replies -/
  | send (origin : Origin) (msg : PhoenixMessage)
  /-- the `Subscribe` command is sent, and its reply received -/
  | subscribe (topic : String)
  | recvReply
  | spawnForwarder (topic : String) (rx : Nat)
  /-- `joined_channels` is changed -/
  | joined (j : Joined α Ω)
  /-- a `phx_leave` has been processed, and any handler has returned -/
  | left (topic : String)
  | idle

/--
What a handler is answered: `effect` to a channel's effect, `sent` to the sending
of a `Subscribe`, `rx` to the wait for its reply.  No event looks at another part.
-/
structure Answer (Ω : Type) where
  effect : Ω
  sent : Bool
  rx : Option Nat

abbrev Handler (α Ω A : Type) := Prog (Event α Ω) (fun _ => Answer Ω) A

section

variable {α Ω : Type}

def emit (e : Event α Ω) : Handler α Ω Unit := .emit e fun _ => .ret ()

/-- Await a channel's callback. -/
def await {A : Type} (c : Callback Ω A) : Handler α Ω A := c.lift .effect fun _ a => a.effect

/-- `if let Some(ref r) = phoenix_msg.msg_ref { socket.reply(r, &reply).await; }` -/
def replyTo (socket : ChannelSocket α) (msgRef : Option String) (origin : Origin) (reply : Reply) :
    Handler α Ω Unit :=
  match msgRef with
  | some r => emit (.send origin (socket.replyMessage r reply))
  | none => pure ()

/-- `PubSub::subscribe`: send the command, and wait for the receiver. -/
def subscribe (topic : String) : Handler α Ω (Option Nat) :=
  .emit (.subscribe topic) fun a =>
    if a.sent then .emit .recvReply fun a => .ret a.rx else .ret none

/-- Spawn the forwarder, unless the PubSub server is gone. -/
def forward (topic : String) : Option Nat → Handler α Ω Unit
  | some rx => emit (.spawnForwarder topic rx)
  | none => pure ()

def handleJoin [EmptyCollection α] (msg : PhoenixMessage) (channel : Channel α Ω)
    (joined : Joined α Ω) : Handler α Ω Unit := do
  emit (.call .join msg.topic)
  let (result, socket) ← await (channel.join msg.topic msg.payload (.newWithPid msg.topic))
  match result with
  | .ok resp =>
      emit (.joinReturned msg.topic true)
      replyTo socket msg.msgRef (.joinOk msg.topic) (.ok resp)
      emit (.call .started msg.topic)
      let socket ← await (channel.started socket)
      let rx ← subscribe msg.topic
      forward msg.topic rx
      emit (.joined (joined.insert msg.topic (channel, socket)))
  | .error _ =>
      emit (.joinReturned msg.topic false)
      replyTo socket msg.msgRef (.joinError msg.topic)
        (.error (.object [("reason", .string "join failed")]))

def handleLeave (msg : PhoenixMessage) (joined : Joined α Ω) : Handler α Ω Unit :=
  match joined.lookup msg.topic with
  | some (channel, socket) => do
      emit (.joined (joined.erase msg.topic))
      emit (.call (.terminate "leave") msg.topic)
      let socket ← await (channel.terminate "leave" socket)
      replyTo socket msg.msgRef .leave (.ok (.object []))
  | none => pure ()

def handleHeartbeat (msg : PhoenixMessage) : Handler α Ω Unit :=
  emit (.send .heartbeat {
    topic := "phoenix"
    event := phxReply
    payload := .object [("status", .string "ok"), ("response", .object [])]
    msgRef := msg.msgRef })

def dispatchEvent (msg : PhoenixMessage) (joined : Joined α Ω) : Handler α Ω Unit :=
  match joined.lookup msg.topic with
  | some (channel, socket) => do
      emit (.call (.handleIn msg.event msg.payload) msg.topic)
      let (result, socket) ← await (channel.handleIn msg.event msg.payload socket)
      emit (.joined (joined.insert msg.topic (channel, socket)))
      match result with
      | .ok (some reply) => replyTo socket msg.msgRef .dispatch reply
      | .ok none => pure ()
      | .error _ =>
          replyTo socket msg.msgRef .dispatch (.error (.object [("reason", .string "error")]))
  | none => pure ()

/-- `ChannelConnectionServer::handle_cast` -/
def handleCast [EmptyCollection α] (serde : SerdeJson) (router : ChannelRouter α Ω)
    (request : String) (joined : Joined α Ω) : Handler α Ω Unit :=
  match serde.phoenixFromStr request with
  | none => pure ()
  | some msg =>
      if msg.event = phxJoin then
        match router.find msg.topic with
        | some channel => handleJoin msg channel joined
        | none => pure ()
      else if msg.event = phxLeave then do
        handleLeave msg joined
        emit (.left msg.topic)
      else if msg.event = heartbeat then handleHeartbeat msg
      else dispatchEvent msg joined

/-- `channel.handle_info` on a joined channel; nothing where the topic is not joined. -/
def callInfo (source : InfoSource) (msg : PubSubMessage) (joined : Joined α Ω) :
    Handler α Ω Unit :=
  match joined.lookup msg.topic with
  | some (channel, socket) => do
      emit (.call (.handleInfo source msg) msg.topic)
      let (_, socket) ← await (channel.handleInfo msg socket)
      emit (.joined (joined.insert msg.topic (channel, socket)))
  | none => pure ()

/-- `ChannelConnectionServer::handle_info` -/
def handleInfo (serde : SerdeJson) (msg : String) (joined : Joined α Ω) : Handler α Ω Unit :=
  match RustStd.stripPrefix msg.toList timerPrefix.toList with
  | some rest =>
      match RustStd.splitAtChar rest timerSep with
      | some (topic, event) =>
          callInfo .timer
            { topic := String.ofList topic, event := String.ofList event, payload := .null } joined
      | none => pure ()
  | none =>
      match serde.pubsubFromStr msg with
      | some pubsubMsg => callInfo .pubsub pubsubMsg joined
      | none => pure ()

/-- The loop of `terminate` over the drained entries. -/
def terminateEach (reason : String) :
    List (String × Channel α Ω × ChannelSocket α) → Handler α Ω Unit
  | [] => pure ()
  | (topic, channel, socket) :: rest => do
      emit (.call .stopping topic)
      let (verdict, socket) ← await (channel.stopping socket)
      if verdict = .yes then
        emit (.call (.terminate reason) topic)
        let _ ← await (channel.terminate reason socket)
      terminateEach reason rest

/-- `ChannelConnectionServer::terminate`, which drains the map in the order of `keys`. -/
def terminate (reason : String) (keys : List String) (joined : Joined α Ω) : Handler α Ω Unit := do
  emit (.joined ∅)
  terminateEach reason (keys.filterMap fun t => (joined.lookup t).map fun entry => (t, entry))

end

/-! ### The process -/

/-- The state of the process, the handler it is in, and what it has done so far. -/
structure Conn (α Ω : Type) where
  joined : Joined α Ω
  todo : Option (Handler α Ω Unit)
  stopped : Bool
  log : List (Event α Ω)

/-- What happens to a connection: a request, an answer to its next event, its end. -/
inductive ConnLabel (Ω : Type) where
  | cast (request : String)
  | info (msg : String)
  /-- the next event, with its answer -/
  | run (a : Answer Ω)
  /-- the handler returns -/
  | finish
  /-- the process stops, and drains `joined_channels` in some order -/
  | stop (reason : String) (keys : List String)
  /-- the process is killed -/
  | kill

variable {α Ω : Type}

/-- `joined_channels` after an event. -/
def Event.joinedAfter (e : Event α Ω) (j : Joined α Ω) : Joined α Ω :=
  match e with
  | .joined j' => j'
  | _ => j

/-- The process emits an event and goes on with its answer. -/
def Conn.emits (c : Conn α Ω) (e : Event α Ω) (todo : Handler α Ω Unit) : Conn α Ω :=
  { c with todo := some todo, joined := e.joinedAfter c.joined, log := c.log ++ [e] }

/-- The process is between two requests. -/
def Conn.waiting (c : Conn α Ω) : Bool := c.todo.isNone && !c.stopped

def Conn.step [EmptyCollection α] (serde : SerdeJson) (router : ChannelRouter α Ω)
    (c : Conn α Ω) : ConnLabel Ω → Option (Conn α Ω)
  | .cast request =>
      if c.waiting then some { c with todo := some (handleCast serde router request c.joined) }
      else none
  | .info msg =>
      if c.waiting then some { c with todo := some (handleInfo serde msg c.joined) } else none
  | .run a =>
      match c.todo with
      | some (.emit e k) => some (c.emits e (k a))
      | _ => none
  | .finish =>
      match c.todo with
      | some (.ret ()) => some { c with todo := none, log := c.log ++ [.idle] }
      | _ => none
  | .stop reason keys =>
      if c.waiting ∧ keys.Perm c.joined.keys then
        some { c with todo := some (terminate reason keys c.joined), stopped := true }
      else none
  | .kill => some { c with todo := none, stopped := true }

/-- `ChannelConnectionServer::init` -/
def Conn.init : Conn α Ω := { joined := ∅, todo := none, stopped := false, log := [] }

/-- A connection, in an environment that may do anything. -/
def connSystem [EmptyCollection α] (serde : SerdeJson) (router : ChannelRouter α Ω) :
    Lts.System (Conn α Ω) (ConnLabel Ω) where
  init := Conn.init
  step := Conn.step serde router

end Mahalo.Channels
