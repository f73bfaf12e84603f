/-
The presence tracker and its handles.

Handles put commands into one queue and the tracker's task takes them out one at a
time, so a run is an order of sends, turns and dropped receivers.  `chans` holds
every channel a `Subscribe` made, with the diffs that were sent on it; replies carry
the number of the reply channel they were asked on.
-/
import Mathlib.Data.List.AList
import Mahalo.Lib.Lts
import Mahalo.Lib.Mpsc
import Mahalo.PubSub

namespace Mahalo

structure PresenceEntry where
  key : String
  metadata : Value
  nodeId : Nat

structure PresenceDiff where
  topic : String
  joins : List PresenceEntry
  leaves : List PresenceEntry

inductive TrackerCommand where
  | track (topic : String) (entry : PresenceEntry)
  | untrack (topic key : String)
  | list (topic : String) (reply : Nat)
  | subscribe (topic : String) (reply : Nat)
  | shutdown

/-- A handle.  Its clones share the tracker and the node id. -/
structure Presence where
  nodeId : Nat

namespace Presence

def track (p : Presence) (topic key : String) (metadata : Value) : TrackerCommand :=
  .track topic { key, metadata, nodeId := p.nodeId }

def untrack (_ : Presence) (topic key : String) : TrackerCommand := .untrack topic key

/-- `Presence::list` and `Presence::subscribe_diff`, up to the wait for the reply. -/
def list (_ : Presence) (topic : String) (reply : Nat) : TrackerCommand := .list topic reply
def subscribeDiff (_ : Presence) (topic : String) (reply : Nat) : TrackerCommand :=
  .subscribe topic reply

end Presence

structure PresenceTracker where
  queue : List TrackerCommand
  /-- `run` has not returned -/
  running : Bool
  /-- topic to its entries -/
  state : AList fun _ : String => List PresenceEntry
  /-- topic to the channels of its subscribers -/
  subscribers : AList fun _ : String => List Nat
  chans : List (Mpsc.Chan PresenceDiff)
  /-- the lists and the receivers that were sent back, each with its reply channel -/
  lists : List (Nat × List PresenceEntry)
  receivers : List (Nat × Nat)
  /-- the commands taken out so far -/
  handled : List TrackerCommand

namespace PresenceTracker

def start : PresenceTracker :=
  { queue := [], running := true, state := ∅, subscribers := ∅, chans := [], lists := [],
    receivers := [], handled := [] }

/-- `cmd_tx.send` -/
def send (s : PresenceTracker) (cmd : TrackerCommand) : PresenceTracker :=
  if s.running then { s with queue := s.queue ++ [cmd] } else s

/-- `PresenceTracker::notify_subscribers` -/
def notifySubscribers (s : PresenceTracker) (topic : String) (diff : PresenceDiff) : PresenceTracker :=
  match s.subscribers.lookup topic with
  | some subs =>
      let (chans, kept) := Mpsc.retainSend diff s.chans subs
      { s with chans, subscribers := s.subscribers.insert topic kept }
  | none => s

/-- The entries of a topic; none where there is no such topic yet. -/
def entries (s : PresenceTracker) (topic : String) : List PresenceEntry :=
  (s.state.lookup topic).getD []

/-- Overwrite the entry with this key, or push a new one. -/
def upsert (entries : List PresenceEntry) (entry : PresenceEntry) : List PresenceEntry :=
  match entries.findIdx? (·.key = entry.key) with
  | some idx => entries.set idx entry
  | none => entries ++ [entry]

/-- The arms of the match in `run`; `true` means that it breaks out of its loop. -/
def handle (s : PresenceTracker) : TrackerCommand → PresenceTracker × Bool
  | .track topic entry =>
      ({ s with state := s.state.insert topic (upsert (s.entries topic) entry) }.notifySubscribers
        topic { topic, joins := [entry], leaves := [] }, false)
  | .untrack topic key =>
      match s.state.lookup topic with
      | some entries =>
          match entries.findIdx? (·.key = key) with
          | some idx =>
              ({ s with state := s.state.insert topic (entries.eraseIdx idx) }.notifySubscribers topic
                { topic, joins := [], leaves := entries[idx]?.toList }, false)
          | none => (s, false)
      | none => (s, false)
  | .list topic reply => ({ s with lists := s.lists ++ [(reply, s.entries topic)] }, false)
  | .subscribe topic reply =>
      let tx := s.chans.length
      ({ s with
          chans := s.chans ++ [{ alive := true, sent := [] }]
          subscribers := s.subscribers.insert topic ((s.subscribers.lookup topic).getD [] ++ [tx])
          receivers := s.receivers ++ [(reply, tx)] }, false)
  | .shutdown => (s, true)

/-- The next turn of `run`; a `recv` on an empty queue waits. -/
def serve (s : PresenceTracker) : Option PresenceTracker :=
  match s.running, s.queue with
  | true, cmd :: queue =>
      let (s', stop) := { s with queue, handled := s.handled ++ [cmd] }.handle cmd
      some { s' with running := !stop }
  | _, _ => none

inductive Label where
  /-- a handle sends a command -/
  | send (cmd : TrackerCommand)
  | serve
  /-- the last handle is gone and the queue is empty -/
  | hangup
  /-- the receiver of a channel is dropped -/
  | drop (id : Nat)

def step (s : PresenceTracker) : Label → Option PresenceTracker
  | .send cmd => some (s.send cmd)
  | .serve => s.serve
  | .hangup => if s.running ∧ s.queue.isEmpty then some { s with running := false } else none
  | .drop id => some { s with chans := Mpsc.drop s.chans id }

def system : Lts.System PresenceTracker Label where
  init := start
  step := step

end PresenceTracker

end Mahalo
