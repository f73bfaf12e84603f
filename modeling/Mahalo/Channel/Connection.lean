/-
A connection among everything it runs with.

The PubSub server is on its own thread and other publishers are on theirs.  On
the connection's side there are the relay of `handle_websocket`, which casts the
client's texts to the process, one forwarder for each receiver, which polls it
and sends what it finds to the process, and the timers.  A label is one turn of
one of them, so a run is any interleaving; the process takes its requests from
two mailboxes, and between two events of a handler anyone else may come first.
A handle can also `unsubscribe` a whole topic or shut the server down; neither a
connection nor a publisher does, and they are no labels here.

`history` is the order of the two things that have to be compared: the events of
the process, and the commands the PubSub queue took in.  The reply channel of a
`Subscribe` is named by its place in that queue.
-/
import Mahalo.Channel.Socket

namespace Mahalo.Channels

open Interactive

/-- A forwarder: the receiver it polls, and how many messages it has taken from it. -/
structure Forwarder where
  topic : String
  rx : Nat
  read : Nat
  running : Bool
  deriving DecidableEq, Repr

structure Sys (α Ω : Type) where
  pubsub : PubSub.Server
  conn : Conn α Ω
  /-- the mailboxes of the process -/
  casts : List String
  infos : List String
  /-- what was sent on `ws_tx` -/
  out : List String
  forwarders : List Forwarder
  /-- the keys of the timers, and whether they recur -/
  timers : List (String × Bool)
  /-- the `Subscribe` commands of this connection: topic and reply channel -/
  own : List (String × Nat)
  history : List (Event α Ω ⊕ PubSubCommand)

namespace Sys

variable {α Ω : Type}

def init : Sys α Ω :=
  { pubsub := PubSub.Server.start, conn := Conn.init, casts := [], infos := [], out := [],
    forwarders := [], timers := [], own := [], history := [] }

/-- An event of the process takes its place in the history. -/
def record (s : Sys α Ω) (e : Event α Ω) : Sys α Ω := { s with history := s.history ++ [.inl e] }

/-- `cmd_tx.send`, by anyone. -/
def enqueue (s : Sys α Ω) (cmd : PubSubCommand) : Sys α Ω :=
  if s.pubsub.phase = .stopped then s
  else { s with pubsub := s.pubsub.enqueue cmd, history := s.history ++ [.inr cmd] }

/-- `if let Ok(json) = serde_json::to_string(&msg) && tx.send(json)…` -/
def sendWs (serde : SerdeJson) (s : Sys α Ω) (msg : PhoenixMessage) : Sys α Ω :=
  { s with out := s.out ++ (serde.phoenixToString msg).toList }

/-- What a channel does through its socket. -/
def effect (serde : SerdeJson) (s : Sys α Ω) : Effect → Sys α Ω
  | .send msg => s.sendWs serde msg
  | .broadcast topic event payload => s.enqueue (PubSub.broadcastArc topic event payload)
  | .runLater topic event => { s with timers := s.timers ++ [(timerKey topic event, false)] }
  | .runInterval topic event => { s with timers := s.timers ++ [(timerKey topic event, true)] }
  | .cast msg => { s with casts := s.casts ++ (serde.phoenixToString msg).toList }
  | .ask => s

/-- What an event of the process does outside it, and how it is answered; the wait for a reply may last. -/
def perform (serde : SerdeJson) (s : Sys α Ω) (ω : Ω) : Event α Ω → Option (Sys α Ω × Answer Ω)
  | .subscribe topic =>
      let k := s.pubsub.enqueued.length
      if s.pubsub.phase = .stopped then some (s, { effect := ω, sent := false, rx := none })
      else some ({ s.enqueue (PubSub.subscribe topic k) with own := s.own ++ [(topic, k)] },
        { effect := ω, sent := true, rx := none })
  | .recvReply =>
      match s.own.getLast? with
      | none => none
      | some (_, k) =>
          match s.pubsub.replies.lookup k with
          | some id => some (s, { effect := ω, sent := true, rx := some id })
          | none =>
              if s.pubsub.phase = .stopped then some (s, { effect := ω, sent := true, rx := none })
              else none
  | .spawnForwarder topic rx =>
      some ({ s with forwarders := s.forwarders ++ [{ topic, rx, read := 0, running := true }] },
        { effect := ω, sent := true, rx := none })
  | .send _ msg => some (s.sendWs serde msg, { effect := ω, sent := true, rx := none })
  | .effect e => some (s.effect serde e, { effect := ω, sent := true, rx := none })
  | .call .. | .joinReturned .. | .joined _ | .left _ | .idle =>
      some (s, { effect := ω, sent := true, rx := none })

/-- The forwarder returns, and its receiver is dropped. -/
def breakForwarder (s : Sys α Ω) (i : Nat) (f : Forwarder) : Sys α Ω :=
  { s with forwarders := s.forwarders.set i { f with running := false }
           pubsub := s.pubsub.drop f.rx }

/-- One round of a forwarder's loop; on an empty receiver it sleeps. -/
def forward (serde : SerdeJson) (s : Sys α Ω) (i : Nat) : Option (Sys α Ω) :=
  match s.forwarders[i]? with
  | none => none
  | some f =>
      if f.running then
        match (s.pubsub.chans[f.rx]?).bind (·.sent[f.read]?) with
        | some msg =>
            let taken := s.forwarders.set i { f with read := f.read + 1 }
            match serde.pubsubToString msg with
            | some json =>
                if s.conn.stopped then some (s.breakForwarder i f)
                else some { s with forwarders := taken, infos := s.infos ++ [json] }
            | none => some { s with forwarders := taken }
        | none => if s.pubsub.phase = .stopped then some (s.breakForwarder i f) else none
      else none

/-- A timer fires: a recurring one stays, unless the process is gone. -/
def fire (s : Sys α Ω) (i : Nat) : Option (Sys α Ω) :=
  match s.timers[i]? with
  | none => none
  | some (key, recurring) =>
      if s.conn.stopped then some { s with timers := s.timers.eraseIdx i }
      else some { s with
        infos := s.infos ++ [key]
        timers := if recurring then s.timers else s.timers.eraseIdx i }

end Sys

inductive SysLabel (Ω : Type) where
  /-- `handle_websocket` casts a text of the client -/
  | receive (text : String)
  /-- the process takes a request from one of its mailboxes -/
  | cast
  | info
  /-- the next event of the handler -/
  | run (ω : Ω)
  | finish
  | stop (reason : String) (keys : List String)
  | kill
  /-- the PubSub server's next turn -/
  | serve
  /-- others publish, subscribe, and drop a receiver of theirs -/
  | publish (topic event : String) (payload : Value)
  | subscribeOther (topic : String)
  | dropOther (id : Nat)
  | forward (i : Nat)
  | fire (i : Nat)

variable {α Ω : Type}

/-- A step of the process that nothing outside sees. -/
def Sys.connStep [EmptyCollection α] (serde : SerdeJson) (router : ChannelRouter α Ω)
    (s : Sys α Ω) (l : ConnLabel Ω) : Option (Sys α Ω) :=
  (s.conn.step serde router l).map fun conn => { s with conn }

def Sys.step [EmptyCollection α] (serde : SerdeJson) (router : ChannelRouter α Ω)
    (s : Sys α Ω) : SysLabel Ω → Option (Sys α Ω)
  | .receive text => if s.conn.stopped then none else some { s with casts := s.casts ++ [text] }
  | .cast =>
      match s.casts with
      | request :: casts => { s with casts }.connStep serde router (.cast request)
      | [] => none
  | .info =>
      match s.infos with
      | msg :: infos => { s with infos }.connStep serde router (.info msg)
      | [] => none
  | .run ω =>
      match s.conn.todo with
      | some (.emit e _) =>
          ((s.record e).perform serde ω e).bind fun (s', a) => s'.connStep serde router (.run a)
      | _ => none
  | .finish => (s.record .idle).connStep serde router .finish
  | .stop reason keys => s.connStep serde router (.stop reason keys)
  | .kill => s.connStep serde router .kill
  | .serve => s.pubsub.serve.map fun pubsub => { s with pubsub }
  | .publish topic event payload => some (s.enqueue (PubSub.broadcastArc topic event payload))
  | .subscribeOther topic => some (s.enqueue (PubSub.subscribe topic s.pubsub.enqueued.length))
  | .dropOther id =>
      if ∀ p ∈ s.own, s.pubsub.replies.lookup p.2 ≠ some id then
        some { s with pubsub := s.pubsub.drop id }
      else none
  | .forward i => s.forward serde i
  | .fire i => s.fire i

def sysSystem [EmptyCollection α] (serde : SerdeJson) (router : ChannelRouter α Ω) :
    Lts.System (Sys α Ω) (SysLabel Ω) where
  init := Sys.init
  step := Sys.step serde router

end Mahalo.Channels
