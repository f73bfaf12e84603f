/-
The cluster.

`start` asks the topology for the initial peers and announces them; its task then
polls, announces what came and went, and remembers the set for the next poll.  What
the topology answers is in the label of a step, and so is the order in which the hash
set made of it iterates.  An address is anything that has an equality and a text.
-/
import Mahalo.Lib.Lts
import Mahalo.Lib.Roster
import Mahalo.PubSub

namespace Mahalo

/-- `HashSet`: its elements in the order in which it iterates. -/
structure HashSet (A : Type*) where
  elems : List A
  nodup : elems.Nodup

namespace HashSet

variable {A : Type*} [DecidableEq A]

/-- The set of some items, if `order` is an order in which it can iterate. -/
def collect (items order : List A) : Option (HashSet A) :=
  if h : order.Nodup ∧ (∀ a ∈ order, a ∈ items) ∧ ∀ a ∈ items, a ∈ order then
    some { elems := order, nodup := h.1 }
  else none

def difference (xs ys : HashSet A) : List A := xs.elems.filter (· ∉ ys.elems)

end HashSet

open Roster (Event)

structure MahaloCluster (Addr : Type*) where
  nodeId : Nat
  /-- nothing until the initial peers are there -/
  knownPeers : Option (HashSet Addr)
  /-- the broadcasts, and which peer each of them was about -/
  sent : List PubSubCommand
  events : List (Event Addr)

namespace MahaloCluster

variable {Addr : Type*} (display : Addr → String)

def eventName : Event Addr → String
  | .up _ => "node_up"
  | .down _ => "node_down"

def announcement (nodeId : Nat) (e : Event Addr) : PubSubCommand :=
  PubSub.broadcastArc "mahalo:cluster" (eventName e)
    (.object [("node_id", .number (toString nodeId)), ("addr", .string (display e.who))])

def broadcast (s : MahaloCluster Addr) (e : Event Addr) : MahaloCluster Addr :=
  { s with sent := s.sent ++ [announcement display s.nodeId e], events := s.events ++ [e] }

/-- `for peer in peers { pubsub.broadcast(..) }` -/
def broadcastAll (s : MahaloCluster Addr) (peers : List Addr) (event : Addr → Event Addr) :
    MahaloCluster Addr := peers.foldl (fun s peer => s.broadcast display (event peer)) s

/-- `MahaloCluster::start`, up to the spawn of its task. -/
def start (s : MahaloCluster Addr) (initialPeers : HashSet Addr) : MahaloCluster Addr :=
  { s.broadcastAll display initialPeers.elems .up with knownPeers := some initialPeers }

variable [DecidableEq Addr]

/-- The body of the task's loop. -/
def poll (s : MahaloCluster Addr) (knownPeers current : HashSet Addr) : MahaloCluster Addr :=
  let s := s.broadcastAll display (current.difference knownPeers) .up
  let s := s.broadcastAll display (knownPeers.difference current) .down
  { s with knownPeers := some current }

inductive Label (Addr : Type*) where
  /-- `initial_peers` returns -/
  | start (peers order : List Addr)
  /-- `poll_peers` returns -/
  | poll (peers order : List Addr)

def step (s : MahaloCluster Addr) : Label Addr → Option (MahaloCluster Addr)
  | .start peers order =>
      match s.knownPeers with
      | none => (HashSet.collect peers order).map (s.start display)
      | some _ => none
  | .poll peers order =>
      match s.knownPeers with
      | some knownPeers => (HashSet.collect peers order).map (s.poll display knownPeers)
      | none => none

def system (nodeId : Nat) : Lts.System (MahaloCluster Addr) (Label Addr) where
  init := { nodeId, knownPeers := none, sent := [], events := [] }
  step := step display

end MahaloCluster

end Mahalo
