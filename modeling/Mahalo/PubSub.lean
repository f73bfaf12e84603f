/-
The PubSub server and its handles.

Clients put commands into one FIFO queue and the server thread takes them out,
so the only choices in a run are which client enqueues next, when the server
takes a command, and when a receiver is dropped; they are the labels of the
system.  `chans` holds every channel ever made by a `Subscribe`, with what was
sent on it and whether its receiver is still there, and a topic maps to the
channels it sends to.

`retain` sends to one channel after the other, and a send looks at nothing but
its own receiver.  A receiver dropped in the middle of a broadcast is therefore
one dropped before or after it.
-/
import Mathlib.Data.List.AList
import Mahalo.Lib.Lts
import Mahalo.Lib.Mpsc

namespace Mahalo

/-- `serde_json::Value` -/
inductive Value where
  | null
  | bool (b : Bool)
  | number (text : String)
  | string (s : String)
  | array (items : List Value)
  | object (fields : List (String × Value))

structure PubSubMessage where
  topic : String
  event : String
  payload : Value

/-- The server's commands.  `reply` is the channel on which a `Subscribe` is answered. -/
inductive PubSubCommand where
  | subscribe (topic : String) (reply : Nat)
  | broadcast (topic : String) (msg : PubSubMessage)
  | unsubscribe (topic : String)
  | shutdown

namespace PubSub

/-- A channel made by a `Subscribe`. -/
abbrev Chan := Mpsc.Chan PubSubMessage

/-- Where `run_server` is: in `recv`, in the inner loop over `try_recv`, or returned. -/
inductive Phase where
  | recv
  | drain
  | stopped
  deriving DecidableEq, Repr

/-- Topics to the senders of their subscribers. -/
abbrev Topics := AList fun _ : String => List Nat

structure Server where
  queue : List PubSubCommand
  phase : Phase
  topics : Topics
  chans : List Chan
  /-- the receivers sent back, each with the reply channel it was sent on -/
  replies : List (Nat × Nat)
  /-- every command the queue accepted, and those the server has taken out -/
  enqueued : List PubSubCommand
  handled : List PubSubCommand

def Server.start : Server :=
  { queue := [], phase := .recv, topics := ∅, chans := [], replies := [], enqueued := [],
    handled := [] }

/-! ### The handle -/

/-- `PubSub::subscribe`, up to the wait for the reply. -/
def subscribe (topic : String) (reply : Nat) : PubSubCommand := .subscribe topic reply

/-- `PubSub::broadcast_arc` -/
def broadcastArc (topic event : String) (payload : Value) : PubSubCommand :=
  .broadcast topic { topic, event, payload }

/-- `PubSub::unsubscribe` -/
def unsubscribe (topic : String) : PubSubCommand := .unsubscribe topic

/-- `PubSub::shutdown` -/
def shutdown : PubSubCommand := .shutdown

/-- `cmd_tx.send`: the queue takes commands until the server has returned. -/
def Server.enqueue (s : Server) (cmd : PubSubCommand) : Server :=
  if s.phase = .stopped then s
  else { s with queue := s.queue ++ [cmd], enqueued := s.enqueued ++ [cmd] }

/-! ### The server -/

/-- `PubSub::handle_command`; `true` means that shutdown was requested. -/
def handleCommand (cmd : PubSubCommand) (s : Server) : Server × Bool :=
  match cmd with
  | .subscribe topic reply =>
      let tx := s.chans.length
      let senders := (s.topics.lookup topic).getD []
      ({ s with
          topics := s.topics.insert topic (senders ++ [tx])
          chans := s.chans ++ [{ alive := true, sent := [] }]
          replies := s.replies ++ [(reply, tx)] }, false)
  | .broadcast topic msg =>
      match s.topics.lookup topic with
      | some senders =>
          let (chans, kept) := Mpsc.retainSend msg s.chans senders
          ({ s with
              topics := if kept.isEmpty then s.topics.erase topic else s.topics.insert topic kept
              chans }, false)
      | none => (s, false)
  | .unsubscribe topic =>
      match s.topics.lookup topic with
      | some _ => ({ s with topics := s.topics.erase topic }, false)
      | none => (s, false)
  | .shutdown => (s, true)

/-- The next turn of `run_server`; a `recv` on an empty queue waits. -/
def Server.serve (s : Server) : Option Server :=
  match s.phase, s.queue with
  | .stopped, _ => none
  | .recv, [] => none
  | .drain, [] => some { s with phase := .recv }
  | _, cmd :: queue =>
      let (s', stop) := handleCommand cmd { s with queue, handled := s.handled ++ [cmd] }
      some { s' with phase := if stop then .stopped else .drain }

/-- Every handle is gone and the queue is empty: `recv` fails and the server returns. -/
def Server.hangup (s : Server) : Option Server :=
  if s.phase = .recv ∧ s.queue.isEmpty then some { s with phase := .stopped } else none

/-- The receiver of a channel is dropped. -/
def Server.drop (s : Server) (id : Nat) : Server :=
  { s with chans := Mpsc.drop s.chans id }

/-! ### The system -/

inductive Label where
  /-- a client enqueues a command -/
  | client (cmd : PubSubCommand)
  | serve
  | hangup
  | drop (id : Nat)

def step (s : Server) : Label → Option Server
  | .client cmd => some (s.enqueue cmd)
  | .serve => s.serve
  | .hangup => s.hangup
  | .drop id => some (s.drop id)

def system : Lts.System Server Label where
  init := Server.start
  step := step

end PubSub

end Mahalo
