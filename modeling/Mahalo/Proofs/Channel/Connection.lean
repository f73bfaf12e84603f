/-
What the parts of a connection know of each other.

`Wired` relates the PubSub server, the process and its subscriptions to the
history: the queue holds the commands in the order of the history, every
`Subscribe` of the connection is there under the reply channel it was given, its
reply names the channel the server made for it, and the receiver lives as long as
the process does.  Every step of the system keeps it.
-/
import Mahalo.Channel.Connection
import Mahalo.Proofs.Channel.Socket
import Mahalo.Proofs.PubSub

namespace Mahalo.Channels

open Interactive History PubSub

variable {α Ω : Type}

/-- The process's events in a history, and the commands in it. -/
def events (h : List (Event α Ω ⊕ PubSubCommand)) : List (Event α Ω) := h.filterMap Sum.getLeft?
def commands (h : List (Event α Ω ⊕ PubSubCommand)) : List PubSubCommand :=
  h.filterMap Sum.getRight?

theorem events_append (h h' : List (Event α Ω ⊕ PubSubCommand)) :
    events (h ++ h') = events h ++ events h' := List.filterMap_append

theorem commands_append (h h' : List (Event α Ω ⊕ PubSubCommand)) :
    commands (h ++ h') = commands h ++ commands h' := List.filterMap_append

structure Wired (p : Server) (log : List (Event α Ω)) (stopped : Bool) (own : List (String × Nat))
    (history : List (Event α Ω ⊕ PubSubCommand)) : Prop where
  tracks : Tracks p
  running : p.phase ≠ .stopped
  noShutdown : PubSubCommand.shutdown ∉ p.queue
  events : log = events history
  commands : p.enqueued = commands history
  tokens : ∀ (k : Nat) t r, p.enqueued[k]? = some (.subscribe t r) → r = k
  topics : ∀ t m, PubSubCommand.broadcast t m ∈ p.enqueued → m.topic = t
  owned : ∀ t k, (t, k) ∈ own → p.enqueued[k]? = some (.subscribe t k)
  replies : ∀ k id, p.replies.lookup k = some id ↔
    ∃ t, p.handled[k]? = some (.subscribe t k) ∧ id = (subscriptions (p.handled.take k)).length
  alive : stopped = false → ∀ t k id, (t, k) ∈ own → p.replies.lookup k = some id →
    aliveAt p.chans id = true
  asked : ∀ pre t post, history = pre ++ .inl (.subscribe t) :: post →
    (t, (Channels.commands pre).length) ∈ own ∧
      ∃ post', post = .inr (.subscribe t (Channels.commands pre).length) :: post'

def Sys.Wired (s : Sys α Ω) : Prop :=
  Channels.Wired s.pubsub s.conn.log s.conn.stopped s.own s.history

section

variable {p : Server} {log : List (Event α Ω)} {stopped : Bool} {own : List (String × Nat)}
  {history : List (Event α Ω ⊕ PubSubCommand)}

theorem wired_init : (Sys.init : Sys α Ω).Wired where
  tracks := tracks_start
  running := nofun
  noShutdown := nofun
  events := rfl
  commands := rfl
  tokens := nofun
  topics := nofun
  owned := nofun
  replies := by
    intro k id
    constructor
    · nofun
    · rintro ⟨t, hsub, -⟩; cases hsub
  alive := nofun
  asked := by intro pre t post h; exact absurd h.symm (by simp [Sys.init])

/-- Anything but the sending of a `Subscribe` just takes its place in the history. -/
theorem Wired.record (hw : Wired p log stopped own history) {e : Event α Ω}
    (he : ∀ t, e ≠ .subscribe t) : Wired p (log ++ [e]) stopped own (history ++ [.inl e]) where
  tracks := hw.tracks
  running := hw.running
  noShutdown := hw.noShutdown
  events := by rw [events_append, ← hw.events]; rfl
  commands := by rw [commands_append, ← hw.commands]; exact (List.append_nil _).symm
  tokens := hw.tokens
  topics := hw.topics
  owned := hw.owned
  replies := hw.replies
  alive := hw.alive
  asked := by
    intro pre t post hsplit
    rcases concat_eq_split hsplit with ⟨-, heq, -⟩ | ⟨post', rfl, hold⟩
    · exact absurd (Sum.inl.inj heq).symm (he t)
    · obtain ⟨hmem, rest, hrest⟩ := hw.asked pre t post' hold
      exact ⟨hmem, rest ++ [.inl e], by rw [hrest]; rfl⟩

/-- A command that a handle may send here, with the reply channel that is next. -/
structure Sendable (p : Server) (cmd : PubSubCommand) : Prop where
  plain : ∀ t, cmd ≠ .unsubscribe t
  noShutdown : cmd ≠ .shutdown
  token : ∀ t r, cmd = .subscribe t r → r = p.enqueued.length
  topic : ∀ t m, cmd = .broadcast t m → m.topic = t

theorem enqueue_running (hrun : p.phase ≠ .stopped) (cmd : PubSubCommand) :
    p.enqueue cmd = { p with queue := p.queue ++ [cmd], enqueued := p.enqueued ++ [cmd] } :=
  if_neg hrun

/-- The queue takes a command in. -/
theorem Wired.enqueue (hw : Wired p log stopped own history) {cmd : PubSubCommand}
    (hcmd : Sendable p cmd) : Wired (p.enqueue cmd) log stopped own (history ++ [.inr cmd]) where
  tracks := tracks_enqueue hw.tracks hcmd.plain
  running := by rw [enqueue_running hw.running]; exact hw.running
  noShutdown := by
    rw [enqueue_running hw.running]
    simp only [List.mem_append, List.mem_singleton, not_or]
    exact ⟨hw.noShutdown, Ne.symm hcmd.noShutdown⟩
  events := by rw [events_append, ← hw.events]; exact (List.append_nil _).symm
  commands := by
    rw [enqueue_running hw.running, commands_append, ← hw.commands]
    rfl
  tokens := by
    rw [enqueue_running hw.running]
    intro k t r h
    rcases of_getElem?_concat h with hk | ⟨rfl, hy⟩
    · exact hw.tokens k t r hk
    · exact hcmd.token t r hy.symm
  topics := by
    rw [enqueue_running hw.running]
    intro t m h
    rcases List.mem_append.mp h with h | h
    · exact hw.topics t m h
    · exact hcmd.topic t m (List.mem_singleton.mp h).symm
  owned := by
    rw [enqueue_running hw.running]
    intro t k h
    have hk := hw.owned t k h
    show (p.enqueued ++ [cmd])[k]? = _
    rw [List.getElem?_append_left (List.getElem?_eq_some_iff.mp hk).1]
    exact hk
  replies := by rw [enqueue_running hw.running]; exact hw.replies
  alive := by rw [enqueue_running hw.running]; exact hw.alive
  asked := by
    intro pre t post hsplit
    rcases concat_eq_split hsplit with ⟨-, heq, -⟩ | ⟨post', rfl, hold⟩
    · cases heq
    · obtain ⟨hmem, rest, hrest⟩ := hw.asked pre t post' hold
      exact ⟨hmem, rest ++ [.inr cmd], by rw [hrest]; rfl⟩

/-- The connection sends a `Subscribe`: an event, a command and a reply channel at once. -/
theorem Wired.subscribe (hw : Wired p log stopped own history) (t : String) :
    Wired (p.enqueue (.subscribe t p.enqueued.length)) (log ++ [.subscribe t]) stopped
      (own ++ [(t, p.enqueued.length)])
      (history ++ [.inl (.subscribe t)] ++ [.inr (.subscribe t p.enqueued.length)]) := by
  have hlen : p.enqueued.length = (Channels.commands history).length := by rw [hw.commands]
  have hcmds : Channels.commands (history ++ [.inl (.subscribe t)]) = Channels.commands history := by
    rw [commands_append]
    exact List.append_nil _
  have hsend : Sendable p (.subscribe t p.enqueued.length) :=
    ⟨nofun, nofun, by rintro _ _ ⟨⟩; rfl, nofun⟩
  have he := hw.enqueue hsend
  refine ⟨he.tracks, he.running, he.noShutdown, ?_, ?_, he.tokens, he.topics, ?_, he.replies, ?_, ?_⟩
  · rw [events_append, events_append, ← hw.events]
    exact (List.append_nil _).symm
  · rw [commands_append, hcmds, he.commands, commands_append]
  · intro t' k hmem
    rcases List.mem_append.mp hmem with hmem | hmem
    · exact he.owned t' k hmem
    · cases List.mem_singleton.mp hmem
      rw [enqueue_running hw.running]
      exact List.getElem?_concat_length
  · intro hstop t' k id hmem hreply
    rcases List.mem_append.mp hmem with hmem | hmem
    · exact he.alive hstop t' k id hmem hreply
    · cases List.mem_singleton.mp hmem
      -- the new reply channel has no reply yet
      rw [enqueue_running hw.running] at hreply
      obtain ⟨_, hhandled, -⟩ := (hw.replies _ _).mp hreply
      have hlt := (List.getElem?_eq_some_iff.mp hhandled).1
      have hfifo := congrArg List.length hw.tracks.fifo
      rw [List.length_append] at hfifo
      omega
  · intro pre t' post hsplit
    rcases concat_eq_split hsplit with ⟨-, heq, -⟩ | ⟨post', rfl, hold⟩
    · cases heq
    · rcases concat_eq_split hold with ⟨rfl, heq, rfl⟩ | ⟨post'', rfl, hold'⟩
      · cases heq
        rw [← hlen]
        exact ⟨List.mem_append_right _ (List.mem_singleton_self _), [], rfl⟩
      · obtain ⟨hmem, rest, hrest⟩ := hw.asked pre t' post'' hold'
        exact ⟨List.mem_append_left _ hmem, _, by rw [hrest]; rfl⟩

/-- The replies after a command: those before it, and one to it if it is a `Subscribe`. -/
theorem Wired.lookup_replies (hw : Wired p log stopped own history) {cmd : PubSubCommand}
    (hpos : p.enqueued[p.handled.length]? = some cmd) {s : Server} (hreplies : s.replies = p.replies)
    (hchans : s.chans = p.chans) (k id : Nat) :
    (handleCommand cmd s).1.replies.lookup k = some id ↔
      p.replies.lookup k = some id ∨
        (∃ t, cmd = .subscribe t k) ∧ k = p.handled.length ∧ id = p.chans.length := by
  rw [handleCommand_replies, hreplies, hchans, List.lookup_append]
  cases cmd with
  | subscribe t r =>
      have hr : r = p.handled.length := hw.tokens _ t r hpos
      cases hk : p.replies.lookup k with
      | some id' =>
          obtain ⟨_, hhandled, -⟩ := (hw.replies k id').mp hk
          have hlt := (List.getElem?_eq_some_iff.mp hhandled).1
          simp only [Option.some_or]
          constructor
          · intro heq; exact Or.inl heq
          · rintro (heq | ⟨-, rfl, -⟩)
            · exact heq
            · omega
      | none =>
          simp only [Option.none_or, List.lookup_cons, List.lookup_nil]
          by_cases hkr : k = r
          · rw [hkr]
            simp [hr, eq_comm]
          · have : (k == r) = false := by simpa using hkr
            rw [this]
            constructor
            · nofun
            · rintro (hbad | ⟨⟨t', heq⟩, -⟩)
              · cases hbad
              · cases heq
                exact absurd rfl hkr
  | _ => simp

/-- The server's next turn. -/
theorem Wired.serve (hw : Wired p log stopped own history) {p' : Server} (h : p.serve = some p') :
    Wired p' log stopped own history := by
  have htracks := tracks_serve hw.tracks h
  rcases serve_cases h with ⟨-, -, rfl⟩ | ⟨cmd, queue, -, hqueue, rfl⟩
  · exact { hw with tracks := htracks, running := nofun }
  obtain ⟨hq, hh, he, hstop⟩ :=
    handleCommand_frame cmd { p with queue, handled := p.handled ++ [cmd] }
  have hnot : cmd ≠ .shutdown := by
    rintro rfl
    exact hw.noShutdown (by rw [hqueue]; exact List.mem_cons_self ..)
  have hagrees := tracks_agrees hw.tracks
  have hcount := hagrees.count
  have hpos : p.enqueued[p.handled.length]? = some cmd := by
    rw [hw.tracks.fifo, hqueue, List.getElem?_append_right (Nat.le_refl _), Nat.sub_self]
    rfl
  have hlookup := hw.lookup_replies hpos (s := { p with queue, handled := p.handled ++ [cmd] }) rfl rfl
  have halive : ∀ id, aliveAt p.chans id = true →
      aliveAt (handleCommand cmd { p with queue, handled := p.handled ++ [cmd] }).1.chans id = true :=
    fun id => aliveAt_handleCommand (s := { p with queue, handled := p.handled ++ [cmd] }) hagrees
  have hnew : ∀ t r, cmd = .subscribe t r →
      aliveAt (handleCommand cmd { p with queue, handled := p.handled ++ [cmd] }).1.chans
        p.chans.length = true := by
    rintro t r rfl
    exact aliveAt_new t r { p with queue, handled := p.handled ++ [.subscribe t r] }
  generalize hout : handleCommand cmd { p with queue, handled := p.handled ++ [cmd] } = out at *
  simp only at hq hh he
  refine ⟨htracks, ?_, ?_, hw.events, ?_, ?_, ?_, ?_, ?_, ?_, hw.asked⟩
  · show (if out.2 then Phase.stopped else Phase.drain) ≠ .stopped
    rw [if_neg (fun hs => hnot (hstop.mp hs))]
    nofun
  · show PubSubCommand.shutdown ∉ out.1.queue
    rw [hq]
    intro hmem
    exact hw.noShutdown (by rw [hqueue]; exact List.mem_cons_of_mem _ hmem)
  · show out.1.enqueued = _
    rw [he]
    exact hw.commands
  · show ∀ (k : Nat) t r, out.1.enqueued[k]? = _ → _
    rw [he]
    exact hw.tokens
  · show ∀ t m, _ ∈ out.1.enqueued → _
    rw [he]
    exact hw.topics
  · show ∀ t k, _ → out.1.enqueued[k]? = _
    rw [he]
    exact hw.owned
  · intro k id
    show out.1.replies.lookup k = some id ↔ ∃ t, out.1.handled[k]? = _ ∧
      id = (subscriptions (out.1.handled.take k)).length
    rw [hlookup, hh, hw.replies]
    constructor
    · rintro (⟨t, hk, hid⟩ | ⟨⟨t, rfl⟩, rfl, hid⟩)
      · have hlt := (List.getElem?_eq_some_iff.mp hk).1
        refine ⟨t, by rw [List.getElem?_append_left hlt]; exact hk, ?_⟩
        rw [List.take_append_of_le_length (Nat.le_of_lt hlt)]
        exact hid
      · refine ⟨t, List.getElem?_concat_length, ?_⟩
        rw [List.take_append_of_le_length (Nat.le_refl _), List.take_length, hid, hcount]
    · rintro ⟨t, hk, hid⟩
      rcases of_getElem?_concat hk with hk | ⟨rfl, rfl⟩
      · have hlt := (List.getElem?_eq_some_iff.mp hk).1
        rw [List.take_append_of_le_length (Nat.le_of_lt hlt)] at hid
        exact Or.inl ⟨t, hk, hid⟩
      · rw [List.take_append_of_le_length (Nat.le_refl _), List.take_length] at hid
        exact Or.inr ⟨⟨t, rfl⟩, rfl, by rw [hid, hcount]⟩
  · intro hs t k id hmem hreply
    show aliveAt out.1.chans id = true
    rcases (hlookup k id).mp hreply with hreply | ⟨⟨t', rfl⟩, -, rfl⟩
    · exact halive id (hw.alive hs t k id hmem hreply)
    · exact hnew t' k rfl

/-- A receiver is dropped that is not one of a living process. -/
theorem Wired.drop (hw : Wired p log stopped own history) {id : Nat}
    (hid : stopped = false → ∀ t k, (t, k) ∈ own → p.replies.lookup k ≠ some id) :
    Wired (p.drop id) log stopped own history where
  tracks := tracks_drop hw.tracks id
  running := hw.running
  noShutdown := hw.noShutdown
  events := hw.events
  commands := hw.commands
  tokens := hw.tokens
  topics := hw.topics
  owned := hw.owned
  replies := hw.replies
  alive := by
    intro hs t k id' hmem hreply
    refine aliveAt_drop ?_ (hw.alive hs t k id' hmem hreply)
    rintro rfl
    exact hid hs t k hmem hreply
  asked := hw.asked

/-- The process stops. -/
theorem Wired.stop (hw : Wired p log stopped own history) : Wired p log true own history :=
  { hw with alive := nofun }

/-- The channel of a subscription whose `Subscribe` has been handled. -/
theorem subscription_sent {s : Sys α Ω} (hw : s.Wired) (hrunning : s.conn.stopped = false) {t : String} {k : Nat}
    (hown : (t, k) ∈ s.own) (hlt : k < s.pubsub.handled.length) :
    ∃ id c, s.pubsub.replies.lookup k = some id ∧ s.pubsub.chans[id]? = some c ∧ c.alive = true ∧
      c.sent = broadcastsOn t (s.pubsub.handled.drop (k + 1)) := by
  have hk : s.pubsub.handled[k]? = some (.subscribe t k) := by
    have hk := hw.owned t k hown
    rw [hw.tracks.fifo, List.getElem?_append_left hlt] at hk
    exact hk
  obtain ⟨hlt', hget⟩ := List.getElem?_eq_some_iff.mp hk
  have hsplit : s.pubsub.handled
      = s.pubsub.handled.take k ++ .subscribe t k :: s.pubsub.handled.drop (k + 1) := by
    rw [← hget, ← List.drop_eq_getElem_cons hlt', List.take_append_drop]
  have hreply := (hw.replies k _).mpr ⟨t, hk, rfl⟩
  obtain ⟨c, hc, -, hsent⟩ := hw.tracks.sent _ t k _ hsplit
  have halive := hw.alive hrunning t k _ hown hreply
  rw [aliveAt, Mpsc.aliveAt_eq hc] at halive
  exact ⟨_, c, hreply, hc, halive, hsent halive⟩

end

/-! ### Every step of the system -/

/-- What an event of the process does outside it while the PubSub server runs, and its answer. -/
inductive Acts (serde : SerdeJson) (s : Sys α Ω) (ω : Ω) : Event α Ω → Sys α Ω → Answer Ω → Prop
  | subscribe (t : String) :
      Acts serde s ω (.subscribe t)
        { s with
          pubsub := s.pubsub.enqueue (PubSub.subscribe t s.pubsub.enqueued.length)
          own := s.own ++ [(t, s.pubsub.enqueued.length)]
          history := s.history ++ [.inl (.subscribe t)] ++
            [.inr (PubSub.subscribe t s.pubsub.enqueued.length)] }
        { effect := ω, sent := true, rx := none }
  | recvReply {t : String} {k id : Nat} (hlast : s.own.getLast? = some (t, k))
      (hreply : s.pubsub.replies.lookup k = some id) :
      Acts serde s ω .recvReply (s.record .recvReply) { effect := ω, sent := true, rx := some id }
  | spawnForwarder (t : String) (rx : Nat) :
      Acts serde s ω (.spawnForwarder t rx)
        { s.record (.spawnForwarder t rx) with
          forwarders := s.forwarders ++ [{ topic := t, rx, read := 0, running := true }] }
        { effect := ω, sent := true, rx := none }
  | broadcast (topic event : String) (payload : Value) :
      Acts serde s ω (.effect (.broadcast topic event payload))
        { s with
          pubsub := s.pubsub.enqueue (broadcastArc topic event payload)
          history := s.history ++ [.inl (.effect (.broadcast topic event payload))] ++
            [.inr (broadcastArc topic event payload)] }
        { effect := ω, sent := true, rx := none }
  /-- any other event only adds to what is sent, cast or timed -/
  | other {e : Event α Ω} (out casts : List String) (timers : List (String × Bool))
      (hsub : ∀ t, e ≠ .subscribe t) (hspawn : ∀ t rx, e ≠ .spawnForwarder t rx)
      (hwait : e ≠ .recvReply)
      (htimers : ∀ p ∈ timers, p ∈ s.timers ∨ ∃ topic event, p.1 = timerKey topic event) :
      Acts serde s ω e { s.record e with out, casts, timers }
        { effect := ω, sent := true, rx := none }

/-- A step, with what it found and what it leaves. -/
inductive Turn [EmptyCollection α] (serde : SerdeJson) (router : ChannelRouter α Ω) (s : Sys α Ω) :
    SysLabel Ω → Sys α Ω → Prop
  | receive (text : String) :
      Turn serde router s (.receive text) { s with casts := s.casts ++ [text] }
  | cast {request : String} {casts : List String} (hcasts : s.casts = request :: casts)
      (hwaiting : s.conn.waiting = true) :
      Turn serde router s .cast
        { s with
          casts
          conn := { s.conn with todo := some (handleCast serde router request s.conn.joined) } }
  | info {msg : String} {infos : List String} (hinfos : s.infos = msg :: infos)
      (hwaiting : s.conn.waiting = true) :
      Turn serde router s .info
        { s with
          infos, conn := { s.conn with todo := some (handleInfo serde msg s.conn.joined) } }
  | run {ω : Ω} {e : Event α Ω} {k : Answer Ω → Handler α Ω Unit} {s' : Sys α Ω} {a : Answer Ω}
      (htodo : s.conn.todo = some (.emit e k)) (hacts : Acts serde s ω e s' a) :
      Turn serde router s (.run ω) { s' with conn := s.conn.emits e (k a) }
  | finish (htodo : s.conn.todo = some (.ret ())) :
      Turn serde router s .finish
        { s.record .idle with
          conn := { s.conn with todo := none, log := s.conn.log ++ [.idle] } }
  | stop {reason : String} {keys : List String} (hwaiting : s.conn.waiting = true) :
      Turn serde router s (.stop reason keys)
        { s with
          conn := { s.conn with
            todo := some (terminate reason keys s.conn.joined), stopped := true } }
  | kill : Turn serde router s .kill { s with conn := { s.conn with todo := none, stopped := true } }
  | serve {p : Server} (hserve : s.pubsub.serve = some p) :
      Turn serde router s .serve { s with pubsub := p }
  | publish (topic event : String) (payload : Value) :
      Turn serde router s (.publish topic event payload)
        { s with
          pubsub := s.pubsub.enqueue (broadcastArc topic event payload)
          history := s.history ++ [.inr (broadcastArc topic event payload)] }
  | subscribeOther (topic : String) :
      Turn serde router s (.subscribeOther topic)
        { s with
          pubsub := s.pubsub.enqueue (PubSub.subscribe topic s.pubsub.enqueued.length)
          history := s.history ++ [.inr (PubSub.subscribe topic s.pubsub.enqueued.length)] }
  | dropOther {id : Nat} (hother : ∀ p ∈ s.own, s.pubsub.replies.lookup p.2 ≠ some id) :
      Turn serde router s (.dropOther id) { s with pubsub := s.pubsub.drop id }
  | take {i : Nat} {f : Forwarder} {msg : PubSubMessage} {json : String}
      (hf : s.forwarders[i]? = some f)
      (hmsg : (s.pubsub.chans[f.rx]?).bind (·.sent[f.read]?) = some msg)
      (hjson : serde.pubsubToString msg = some json) (hlive : s.conn.stopped = false) :
      Turn serde router s (.forward i)
        { s with
          forwarders := s.forwarders.set i { f with read := f.read + 1 }
          infos := s.infos ++ [json] }
  | skip {i : Nat} {f : Forwarder} {msg : PubSubMessage} (hf : s.forwarders[i]? = some f)
      (hmsg : (s.pubsub.chans[f.rx]?).bind (·.sent[f.read]?) = some msg)
      (hjson : serde.pubsubToString msg = none) :
      Turn serde router s (.forward i)
        { s with forwarders := s.forwarders.set i { f with read := f.read + 1 } }
  | broken {i : Nat} {f : Forwarder} (hstopped : s.conn.stopped = true) :
      Turn serde router s (.forward i) (s.breakForwarder i f)
  | fire {i : Nat} {key : String} {recurring : Bool} (hkey : s.timers[i]? = some (key, recurring))
      (hlive : s.conn.stopped = false) :
      Turn serde router s (.fire i)
        { s with
          infos := s.infos ++ [key]
          timers := if recurring then s.timers else s.timers.eraseIdx i }
  | fireLast {i : Nat} (hstopped : s.conn.stopped = true) :
      Turn serde router s (.fire i) { s with timers := s.timers.eraseIdx i }

section

variable {serde : SerdeJson} {s s' : Sys α Ω}

theorem Sys.enqueue_running (hrun : s.pubsub.phase ≠ .stopped) (cmd : PubSubCommand) :
    s.enqueue cmd
      = { s with pubsub := s.pubsub.enqueue cmd, history := s.history ++ [.inr cmd] } :=
  if_neg hrun

omit s' in
theorem added_timer (topic event : String) (recurring : Bool) :
    ∀ p ∈ s.timers ++ [(timerKey topic event, recurring)],
      p ∈ s.timers ∨ ∃ topic event, p.1 = timerKey topic event := by
  intro p hp
  rcases List.mem_append.mp hp with hp | hp
  · exact Or.inl hp
  · exact Or.inr ⟨topic, event, by rw [List.mem_singleton.mp hp]⟩

theorem perform_acts (hrun : s.pubsub.phase ≠ .stopped) {ω : Ω} {e : Event α Ω} {a : Answer Ω}
    (h : (s.record e).perform serde ω e = some (s', a)) :
    Acts serde s ω e s' a ∧ s'.conn = s.conn := by
  have hrec : (s.record e).pubsub.phase ≠ .stopped := hrun
  cases e with
  | subscribe t =>
      simp only [Sys.perform] at h
      rw [if_neg hrec, Sys.enqueue_running hrec] at h
      cases h
      exact ⟨.subscribe t, rfl⟩
  | recvReply =>
      simp only [Sys.perform] at h
      split at h
      · cases h
      · rename_i t k hlast
        split at h
        · rename_i id hreply
          cases h
          exact ⟨.recvReply hlast hreply, rfl⟩
        · rw [if_neg hrec] at h
          cases h
  | spawnForwarder t rx =>
      cases h
      exact ⟨.spawnForwarder t rx, rfl⟩
  | effect e =>
      cases e with
      | broadcast topic event payload =>
          simp only [Sys.perform, Sys.effect] at h
          rw [Sys.enqueue_running hrec] at h
          cases h
          exact ⟨.broadcast topic event payload, rfl⟩
      | runLater topic event =>
          cases h
          exact ⟨.other _ _ _ nofun nofun nofun (added_timer topic event false), rfl⟩
      | runInterval topic event =>
          cases h
          exact ⟨.other _ _ _ nofun nofun nofun (added_timer topic event true), rfl⟩
      | _ =>
          cases h
          exact ⟨.other _ _ _ nofun nofun nofun fun _ hp => Or.inl hp, rfl⟩
  | _ =>
      cases h
      exact ⟨.other _ _ _ nofun nofun nofun fun _ hp => Or.inl hp, rfl⟩

variable [EmptyCollection α] {router : ChannelRouter α Ω}

theorem connStep_move {l : ConnLabel Ω} (h : s.connStep serde router l = some s') :
    ∃ c, s.conn.Move serde router l c ∧ s' = { s with conn := c } := by
  obtain ⟨c, hc, rfl⟩ := Option.map_eq_some_iff.mp h
  exact ⟨c, Conn.step_move hc, rfl⟩

theorem forward_turn (hrun : s.pubsub.phase ≠ .stopped) {i : Nat}
    (h : s.forward serde i = some s') : Turn serde router s (.forward i) s' := by
  unfold Sys.forward at h
  split at h
  · cases h
  · rename_i f hf
    split at h
    · split at h
      · rename_i msg hmsg
        split at h
        · rename_i json hjson
          split at h
          · rename_i hstopped
            cases h
            exact .broken hstopped
          · rename_i hlive
            cases h
            exact .take hf hmsg hjson (by simpa using hlive)
        · rename_i hjson
          cases h
          exact .skip hf hmsg hjson
      · cases h
    · cases h

theorem fire_turn {i : Nat} (h : s.fire i = some s') : Turn serde router s (.fire i) s' := by
  unfold Sys.fire at h
  split at h
  · cases h
  · rename_i key recurring hkey
    split at h
    · rename_i hstopped
      cases h
      exact .fireLast hstopped
    · rename_i hlive
      cases h
      exact .fire hkey (by simpa using hlive)

theorem step_turn (hrun : s.pubsub.phase ≠ .stopped) {l : SysLabel Ω}
    (h : s.step serde router l = some s') : Turn serde router s l s' := by
  cases l with
  | receive text =>
      simp only [Sys.step] at h
      split at h
      · cases h
      · cases h; exact .receive text
  | cast =>
      simp only [Sys.step] at h
      split at h
      · rename_i request casts hcasts
        obtain ⟨c, hmove, rfl⟩ := connStep_move h
        cases hmove with
        | cast hwaiting => exact .cast hcasts hwaiting
      · cases h
  | info =>
      simp only [Sys.step] at h
      split at h
      · rename_i msg infos hinfos
        obtain ⟨c, hmove, rfl⟩ := connStep_move h
        cases hmove with
        | info hwaiting => exact .info hinfos hwaiting
      · cases h
  | run ω =>
      simp only [Sys.step] at h
      split at h
      · rename_i e k htodo
        obtain ⟨⟨s1, a⟩, hperform, hrun'⟩ := Option.bind_eq_some_iff.mp h
        obtain ⟨hacts, hconn⟩ := perform_acts hrun hperform
        obtain ⟨c, hmove, rfl⟩ := connStep_move hrun'
        rw [hconn] at hmove
        cases hmove with
        | run htodo' =>
            cases htodo.symm.trans htodo'
            exact .run htodo hacts
      · cases h
  | finish =>
      obtain ⟨c, hmove, rfl⟩ := connStep_move h
      cases hmove with
      | finish htodo => exact .finish htodo
  | stop reason keys =>
      obtain ⟨c, hmove, rfl⟩ := connStep_move h
      cases hmove with
      | stop hwaiting _ => exact .stop hwaiting
  | kill =>
      obtain ⟨c, hmove, rfl⟩ := connStep_move h
      cases hmove with
      | kill => exact .kill
  | serve =>
      simp only [Sys.step] at h
      obtain ⟨p, hp, rfl⟩ := Option.map_eq_some_iff.mp h
      exact .serve hp
  | publish topic event payload =>
      cases h
      rw [Sys.enqueue_running hrun]
      exact .publish topic event payload
  | subscribeOther topic =>
      cases h
      rw [Sys.enqueue_running hrun]
      exact .subscribeOther topic
  | dropOther id =>
      simp only [Sys.step] at h
      split at h
      · rename_i hother
        cases h
        exact .dropOther hother
      · cases h
  | forward i => exact forward_turn hrun h
  | fire i => exact fire_turn h

theorem sendable_broadcast (p : Server) (topic event : String) (payload : Value) :
    Sendable p (broadcastArc topic event payload) :=
  ⟨nofun, nofun, nofun, by rintro t m ⟨⟩; rfl⟩

omit [EmptyCollection α] in
/-- What an event does outside the process is in the history, and leaves the process to go on. -/
theorem wired_acts (hw : s.Wired) {ω : Ω} {e : Event α Ω} {a : Answer Ω}
    (h : Acts serde s ω e s' a) :
    Wired s'.pubsub (s.conn.log ++ [e]) s.conn.stopped s'.own s'.history := by
  cases h with
  | subscribe t => exact hw.subscribe t
  | broadcast topic event payload =>
      have hrec := hw.record (e := .effect (.broadcast topic event payload)) nofun
      exact hrec.enqueue (sendable_broadcast _ topic event payload)
  | other _ _ _ hsub _ _ _ => exact hw.record hsub
  | recvReply _ _ => exact hw.record nofun
  | spawnForwarder t rx => exact hw.record nofun

theorem wired_turn (hw : s.Wired) {l : SysLabel Ω} (h : Turn serde router s l s') : s'.Wired := by
  cases h with
  | run htodo hacts =>
      have hw' := wired_acts hw hacts
      exact hw'
  | finish htodo => exact hw.record nofun
  | stop _ => exact Wired.stop hw
  | kill => exact Wired.stop hw
  | serve hserve => exact Wired.serve hw hserve
  | publish topic event payload =>
      exact hw.enqueue (sendable_broadcast _ topic event payload)
  | subscribeOther topic => exact hw.enqueue ⟨nofun, nofun, by rintro t r ⟨⟩; rfl, nofun⟩
  | dropOther hother => exact Wired.drop hw fun _ t k hmem => hother (t, k) hmem
  | broken hstopped => exact Wired.drop hw fun hrun => by rw [hrun] at hstopped; cases hstopped
  | _ => exact hw

theorem wired_step (hw : s.Wired) {l : SysLabel Ω} (h : s.step serde router l = some s') :
    s'.Wired :=
  wired_turn hw (step_turn hw.running h)

theorem wired_run {labels : List (SysLabel Ω)}
    (h : (sysSystem serde router).exec Sys.init labels = some s) : s.Wired :=
  Lts.exec_invariant (M := sysSystem serde router) wired_init
    (fun _ _ _ hw hstep => wired_step hw hstep) h

end

/-- A client joins the room; the PubSub server answers when it is asked. -/
def joinRoom : List (SysLabel Unit) :=
  [.receive joinText, .cast, .run (), .run (), .run (), .run (), .run (), .serve, .run (), .run (),
    .run (), .finish]

end Mahalo.Channels
