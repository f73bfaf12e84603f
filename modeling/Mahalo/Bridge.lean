/-
The distributed PubSub bridge.

A node is a `DistributedPubSub` with its local `PubSub`.  A peer channel is one queue
with one receiver; `add_peer` puts a sender of it in the peer list of a node, which
makes a link, and `spawn_relay` hands the receiver to a thread that broadcasts what it
takes at the local PubSub of a node.  Nothing says that the links form a tree: a run
may wire the nodes in any way, a node to itself included.

A `broadcast` first reaches the local PubSub, then waits for the write lock of the peer
list, and then sends to one peer after the other; other threads move in between.  Only
what needs the lock waits for it.  Messages carry the numbers of their link and of the
call they come from, and a command that reaches a local PubSub is noted with its origin;
the code reads neither.
-/
import Mathlib.Logic.Function.Basic
import Mahalo.Lib.Lts
import Mahalo.Lib.Mpsc
import Mahalo.PubSub

namespace Mahalo

namespace Bridge

structure Envelope where
  link : Nat
  call : Nat
  msg : PubSubMessage

/-- A sender in a peer list. -/
structure Peer where
  link : Nat
  chan : Nat

/-- An `add_peer`: whose peer list, which channel, and how many fan-outs there had been. -/
structure Link (N : Type*) where
  owner : N
  chan : Nat
  since : Nat

/-- A call of `broadcast`; it waits until it has the lock. -/
structure Call (N : Type*) where
  node : N
  msg : PubSubMessage
  waiting : Bool

/-- A `retain` over the peers: those that were kept, and those it has not come to. -/
structure Fanout where
  call : Nat
  msg : PubSubMessage
  kept : List Peer
  rest : List Peer

inductive Origin where
  /-- the local half of a call of `broadcast` -/
  | own (call : Nat)
  | relayed (link call : Nat)
  /-- a handle of the local PubSub -/
  | client
  deriving DecidableEq

structure Arrival where
  origin : Origin
  cmd : PubSubCommand

end Bridge

open Bridge

structure Bridge (N : Type*) where
  localPubSub : N → PubSub.Server
  peers : N → List Peer
  /-- the holder of the write lock -/
  fanout : N → Option Fanout
  chans : List (Mpsc.Chan Envelope)
  /-- at which node the receiver of a channel is relayed, and how much the thread has taken -/
  relay : Nat → Option N
  taken : Nat → Nat
  links : List (Link N)
  calls : List (Call N)
  /-- the calls that have had the lock of a node -/
  fanouts : N → List Nat
  arrivals : N → List Arrival

namespace Bridge

variable {N : Type*}

def start : Bridge N :=
  { localPubSub := fun _ => PubSub.Server.start, peers := fun _ => [], fanout := fun _ => none,
    chans := [], relay := fun _ => none, taken := fun _ => 0, links := [], calls := [],
    fanouts := fun _ => [], arrivals := fun _ => [] }

variable [DecidableEq N]

/-- A command is put into the queue of a local PubSub. -/
def enqueue (s : Bridge N) (a : N) (origin : Origin) (cmd : PubSubCommand) : Bridge N :=
  { s with
    localPubSub := Function.update s.localPubSub a ((s.localPubSub a).enqueue cmd)
    arrivals := Function.update s.arrivals a (s.arrivals a ++ [{ origin, cmd }]) }

/-- `DistributedPubSub::peer_channel` -/
def peerChannel (s : Bridge N) : Bridge N := { s with chans := s.chans ++ [{ alive := true, sent := [] }] }

/-- `DistributedPubSub::add_peer` -/
def addPeer (s : Bridge N) (a : N) (chan : Nat) : Option (Bridge N) :=
  if chan < s.chans.length ∧ (s.fanout a).isNone then
    some { s with
      peers := Function.update s.peers a (s.peers a ++ [{ link := s.links.length, chan }])
      links := s.links ++ [{ owner := a, chan, since := (s.fanouts a).length }] }
  else none

/-- `DistributedPubSub::spawn_relay`; a receiver can be given away once. -/
def spawnRelay (s : Bridge N) (b : N) (chan : Nat) : Option (Bridge N) :=
  if Mpsc.aliveAt s.chans chan ∧ (s.relay chan).isNone then
    some { s with relay := Function.update s.relay chan (some b) }
  else none

/-- `DistributedPubSub::broadcast`, up to `self.peers.write()` -/
def broadcast (s : Bridge N) (a : N) (topic event : String) (payload : Value) : Bridge N :=
  { s.enqueue a (.own s.calls.length) (PubSub.broadcastArc topic event payload) with
    calls := s.calls ++ [{ node := a, msg := { topic, event, payload }, waiting := true }] }

/-- `self.peers.write()` returns. -/
def lock (s : Bridge N) (c : Nat) : Option (Bridge N) :=
  match s.calls[c]? with
  | some call =>
      if call.waiting ∧ (s.fanout call.node).isNone then
        some { s with
          fanout := Function.update s.fanout call.node
            (some { call := c, msg := call.msg, kept := [], rest := s.peers call.node })
          calls := s.calls.set c { call with waiting := false }
          fanouts := Function.update s.fanouts call.node (s.fanouts call.node ++ [c]) }
      else none
  | none => none

/-- The next `tx.send(msg.clone()).is_ok()` of the `retain`. -/
def sendNext (s : Bridge N) (a : N) : Option (Bridge N) :=
  match s.fanout a with
  | some { call, msg, kept, rest := tx :: rest } =>
      match Mpsc.trySend s.chans tx.chan { link := tx.link, call, msg } with
      | some chans => some { s with
          fanout := Function.update s.fanout a (some { call, msg, kept := kept ++ [tx], rest }), chans }
      | none => some { s with
          fanout := Function.update s.fanout a (some { call, msg, kept, rest }) }
  | _ => none

/-- The `retain` is over, and the lock is released. -/
def unlock (s : Bridge N) (a : N) : Option (Bridge N) :=
  match s.fanout a with
  | some { call := _, msg := _, kept, rest := [] } => some { s with
      peers := Function.update s.peers a kept, fanout := Function.update s.fanout a none }
  | _ => none

/-- A turn of a relay thread: `peer_rx.recv()` and `local.broadcast_arc(..)`. -/
def relayNext (s : Bridge N) (chan : Nat) : Option (Bridge N) :=
  match s.relay chan, (Mpsc.sentOn s.chans chan)[s.taken chan]? with
  | some b, some env =>
      if Mpsc.aliveAt s.chans chan then
        some { s.enqueue b (.relayed env.link env.call)
            (PubSub.broadcastArc env.msg.topic env.msg.event env.msg.payload) with
          taken := Function.update s.taken chan (s.taken chan + 1) }
      else none
  | _, _ => none

inductive Label (N : Type*) where
  | peerChannel
  | addPeer (a : N) (chan : Nat)
  | spawnRelay (b : N) (chan : Nat)
  /-- the receiver of a channel is dropped -/
  | dropReceiver (chan : Nat)
  | broadcast (a : N) (topic event : String) (payload : Value)
  | lock (call : Nat)
  | sendNext (a : N)
  | unlock (a : N)
  | relayNext (chan : Nat)
  /-- another handle of a local PubSub -/
  | client (a : N) (cmd : PubSubCommand)
  /-- the server thread of a local PubSub -/
  | serve (a : N)
  /-- a subscriber of a local PubSub is gone -/
  | dropLocal (a : N) (id : Nat)

def step (s : Bridge N) : Label N → Option (Bridge N)
  | .peerChannel => some s.peerChannel
  | .addPeer a chan => s.addPeer a chan
  | .spawnRelay b chan => s.spawnRelay b chan
  | .dropReceiver chan => some { s with chans := Mpsc.drop s.chans chan }
  | .broadcast a topic event payload => some (s.broadcast a topic event payload)
  | .lock call => s.lock call
  | .sendNext a => s.sendNext a
  | .unlock a => s.unlock a
  | .relayNext chan => s.relayNext chan
  -- nobody shuts a local PubSub down
  | .client _ .shutdown => none
  | .client a cmd => some (s.enqueue a .client cmd)
  | .serve a =>
      ((s.localPubSub a).serve).map fun server =>
        { s with localPubSub := Function.update s.localPubSub a server }
  | .dropLocal a id =>
      some { s with localPubSub := Function.update s.localPubSub a ((s.localPubSub a).drop id) }

def system : Lts.System (Bridge N) (Label N) where
  init := start
  step := step

end Bridge

end Mahalo
