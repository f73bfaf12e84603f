/-
Channels: the messages, the socket a channel is handed, and the `Channel` trait.

A callback is a program over the effects a socket gives a channel: pushes and
replies to the client, broadcasts, timers, and messages to the connection's own
process.  Everything else a callback may depend on (the time, a database, what
another handle answers) is the answer `Ω` to an effect, so a callback is as
nondeterministic as its author likes.  `α` is the socket's assigns.
-/
import Mahalo.Lib.Prog
import Mahalo.Lib.RustStd
import Mahalo.PubSub

namespace Mahalo.Channels

open Interactive

/-- `PHX_JOIN`, `PHX_LEAVE`, `PHX_REPLY` and `HEARTBEAT` -/
def phxJoin : String := "phx_join"
def phxLeave : String := "phx_leave"
def phxReply : String := "phx_reply"
def heartbeat : String := "heartbeat"

structure PhoenixMessage where
  topic : String
  event : String
  payload : Value
  msgRef : Option String

inductive ChannelError where
  | notAuthorized
  | invalidTopic (topic : String)
  | internal (msg : String)
  deriving DecidableEq, Repr

structure Reply where
  status : String
  payload : Value

def Reply.ok (payload : Value) : Reply := { status := "ok", payload }

def Reply.error (payload : Value) : Reply := { status := "error", payload }

inductive ShouldStop where
  | yes
  | no
  deriving DecidableEq, Repr

/-! ### The socket -/

/-- What a channel can do through its socket. -/
inductive Effect where
  /-- `sender.send`: a message to the client -/
  | send (msg : PhoenixMessage)
  /-- `pubsub.broadcast` -/
  | broadcast (topic event : String) (payload : Value)
  /-- `run_later` and `run_interval` on the socket's topic -/
  | runLater (topic event : String)
  | runInterval (topic event : String)
  /-- `ChannelAddr::send_event`: a cast to the connection's own process -/
  | cast (msg : PhoenixMessage)
  /-- anything else the callback looks at -/
  | ask

/-- A callback, with the answers `Ω` it gets to its effects. -/
abbrev Callback (Ω A : Type) := Prog Effect (fun _ => Ω) A

structure ChannelSocket (α : Type) where
  topic : String
  assigns : α

/-- `TIMER_PREFIX` and `TIMER_SEP` -/
def timerPrefix : String := "__timer:"
def timerSep : Char := Char.ofNat 0

/-- The message of a timer for `event` on `topic`. -/
def timerKey (topic event : String) : String :=
  timerPrefix ++ topic ++ String.singleton timerSep ++ event

namespace ChannelSocket

variable {α Ω : Type}

/-- `ChannelSocket::new_with_pid` -/
def newWithPid [EmptyCollection α] (topic : String) : ChannelSocket α := { topic, assigns := ∅ }

/-- The message `reply` sends. -/
def replyMessage (s : ChannelSocket α) (msgRef : String) (reply : Reply) : PhoenixMessage :=
  { topic := s.topic
    event := phxReply
    payload := .object [("status", .string reply.status), ("response", reply.payload)]
    msgRef := some msgRef }

def runLater (s : ChannelSocket α) (event : String) : Callback Ω Ω :=
  .perform (.runLater s.topic event)

def runInterval (s : ChannelSocket α) (event : String) : Callback Ω Ω :=
  .perform (.runInterval s.topic event)

def push (s : ChannelSocket α) (event : String) (payload : Value) : Callback Ω Ω :=
  .perform (.send { topic := s.topic, event, payload, msgRef := none })

def broadcast (s : ChannelSocket α) (event : String) (payload : Value) : Callback Ω Ω :=
  .perform (.broadcast s.topic event payload)

def reply (s : ChannelSocket α) (msgRef : String) (reply : Reply) : Callback Ω Ω :=
  .perform (.send (s.replyMessage msgRef reply))

end ChannelSocket

namespace ChannelAddr

/-- `ChannelAddr::send_event`, on the handle that `addr` gives. -/
def sendEvent (topic event : String) (payload : Value) : Effect :=
  .cast { topic, event, payload, msgRef := none }

end ChannelAddr

/-! ### The trait -/

/-- The `Channel` trait, with its default methods.  A callback returns the socket it leaves. -/
structure Channel (α Ω : Type) where
  join : String → Value → ChannelSocket α →
    Callback Ω (Except ChannelError Value × ChannelSocket α)
  handleIn : String → Value → ChannelSocket α →
    Callback Ω (Except ChannelError (Option Reply) × ChannelSocket α)
  handleInfo : PubSubMessage → ChannelSocket α →
      Callback Ω (Except ChannelError Unit × ChannelSocket α) := fun msg socket => do
    let _ ← socket.push msg.event msg.payload
    return (.ok (), socket)
  started : ChannelSocket α → Callback Ω (ChannelSocket α) := pure
  stopping : ChannelSocket α → Callback Ω (ShouldStop × ChannelSocket α) :=
    fun socket => pure (.yes, socket)
  terminate : String → ChannelSocket α → Callback Ω (ChannelSocket α) := fun _ => pure

/-! ### Routing topics -/

/-- `topic_matches`: a pattern that ends in `:*` matches by prefix, any other only itself. -/
def topicMatches (pattern topic : String) : Bool :=
  if RustStd.endsWith pattern.toList ":*".toList then
    RustStd.startsWith topic.toList pattern.toList.dropLast
  else pattern == topic

structure ChannelRouter (α Ω : Type) where
  routes : List (String × Channel α Ω)

namespace ChannelRouter

variable {α Ω : Type}

def new : ChannelRouter α Ω := { routes := [] }

/-- `ChannelRouter::channel` -/
def channel (r : ChannelRouter α Ω) (topicPattern : String) (handler : Channel α Ω) :
    ChannelRouter α Ω := { routes := r.routes ++ [(topicPattern, handler)] }

/-- The channel of the first pattern that matches. -/
def find (r : ChannelRouter α Ω) (topic : String) : Option (Channel α Ω) :=
  (r.routes.find? fun (pattern, _) => topicMatches pattern topic).map (·.2)

end ChannelRouter

end Mahalo.Channels
