/-
`mahalo-cluster`: the peers that a name resolves to.

`DnsTopology` asks for the addresses of its host whenever the cluster asks it for peers.  What
the resolver answers to a query at that moment is in the label of a step.
-/
import Mahalo.Cluster

namespace Mahalo

structure DnsTopology where
  hostname : String
  port : Nat
  deriving DecidableEq, Repr

namespace DnsTopology

variable {Addr E : Type}

def query (topology : DnsTopology) : String := topology.hostname ++ ":" ++ toString topology.port

/-- `resolve`, with what `lookup_host` answers. -/
def resolve (topology : DnsTopology) (lookupHost : String → Except E (List Addr)) : List Addr :=
  match lookupHost topology.query with
  | .ok addrs => addrs
  | .error _ => []

def initialPeers (topology : DnsTopology) (lookupHost : String → Except E (List Addr)) : List Addr :=
  topology.resolve lookupHost

def pollPeers (topology : DnsTopology) (lookupHost : String → Except E (List Addr)) : List Addr :=
  topology.resolve lookupHost

/-- A step of the cluster, with the resolver at that moment and an order of the set of addresses. -/
inductive Label (Addr E : Type) where
  | start (lookupHost : String → Except E (List Addr)) (order : List Addr)
  | poll (lookupHost : String → Except E (List Addr)) (order : List Addr)

/-- The step with what the topology answers. -/
def Label.answered (topology : DnsTopology) : Label Addr E → MahaloCluster.Label Addr
  | .start lookupHost order => .start (topology.initialPeers lookupHost) order
  | .poll lookupHost order => .poll (topology.pollPeers lookupHost) order

/-- The cluster on this topology. -/
def system [DecidableEq Addr] (topology : DnsTopology) (display : Addr → String) (nodeId : Nat) (E : Type) :
    Lts.System (MahaloCluster Addr) (Label Addr E) :=
  (MahaloCluster.system display nodeId).relabel (Label.answered topology)

end DnsTopology

end Mahalo
