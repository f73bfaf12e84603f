/-
What a browser sees of the prices.

The way from a broadcast to the browser has three parts: the PubSub server, which sends
it on the receiver of the task, the task, which makes an event of it, and the stream.
Each part passes on what it gets, in order and once, and may be behind the one before.
So what the browser has dispatched is always the beginning of the prices that were
broadcast since the subscription was taken, and nothing else.

That the parts stay connected rests on who owns what.  The handler's reply channel is
its own, so the receiver it gets is the one that its subscription made, and nobody else
drops it.
-/
import Mahalo.Proofs.Endpoint.SseStreaming
import Mahalo.Proofs.PubSub
import Mahalo.TestApp.Prices

namespace Mahalo.TestApp

open PubSub (Server Tracks subscriptions broadcastsOn aliveAt)
open EventStream (Message Buffers OneLine interpret)

/-! ### What an event is for the browser -/

/-- `serde_json` writes a value on one line. -/
def SerdeJson.Compact (serde : SerdeJson) : Prop :=
  ∀ v, serde.toText v ≠ "" ∧ '\n' ∉ (serde.toText v).toList ∧ '\r' ∉ (serde.toText v).toList

/-- What is dispatched for a message about a price. -/
def shown (serde : SerdeJson) (msg : PubSubMessage) : Message where
  type := "price_updated".toList
  data := (serde.toText msg.payload).toList
  lastId := []

theorem splitInclusive_one {text : EventStream.Text} (hlf : '\n' ∉ text) (hne : text ≠ []) :
    RustStd.splitInclusive text '\n' = [text] := by
  induction text with
  | nil => exact absurd rfl hne
  | cons c rest ih =>
      rw [List.mem_cons, not_or] at hlf
      cases rest with
      | nil => simp [RustStd.splitInclusive, Ne.symm hlf.1]
      | cons d rest =>
          obtain ⟨piece, pieces, hsplit, -, hcons⟩ :=
            Sse.splitInclusive_cons (Ne.symm hlf.1) (List.cons_ne_nil d rest)
          rw [ih hlf.2 (List.cons_ne_nil d rest)] at hsplit
          obtain ⟨rfl, rfl⟩ := List.cons.inj hsplit
          exact hcons

theorem lines_one {text : EventStream.Text} (hlf : '\n' ∉ text) (hne : text ≠ []) : RustStd.lines text = [text] := by
  unfold RustStd.lines
  rw [splitInclusive_one hlf hne, List.map_singleton]
  unfold RustStd.stripLineEnd
  rw [if_neg fun h => hlf (List.mem_of_getLast? h)]

theorem lines_price {serde : SerdeJson} (hserde : serde.Compact) (msg : PubSubMessage) :
    EventStream.lines (priceEvent serde msg).serialize.toList
      = ["event: ".toList ++ "price_updated".toList, "data: ".toList ++ (serde.toText msg.payload).toList, []] := by
  obtain ⟨hne, hlf, hcr⟩ := hserde msg.payload
  have hwritten : (priceEvent serde msg).written
      = ["event: ".toList ++ "price_updated".toList, "data: ".toList ++ (serde.toText msg.payload).toList] := by
    have hdata : (priceEvent serde msg).dataLines = [(serde.toText msg.payload).toList] := by
      unfold Sse.Event.dataLines priceEvent
      dsimp only [Sse.Event.withJsonData]
      rw [if_neg (by simpa using hne), lines_one hlf (by simpa using hne)]
    unfold Sse.Event.written
    rw [hdata]
    rfl
  have hone : ∀ line ∈ (priceEvent serde msg).written, OneLine line ∧ EventStream.withoutCr line = line := by
    rw [hwritten, List.forall_mem_cons, List.forall_mem_singleton]
    refine ⟨by decide, ?_⟩
    have hcr' : '\r' ∉ "data: ".toList ++ (serde.toText msg.payload).toList := by simp [hcr]
    exact ⟨⟨by simp [hlf], fun hmem => hcr' (List.dropLast_subset _ hmem)⟩, EventStream.withoutCr_of_not_mem hcr'⟩
  rw [Sse.Event.serialize_toList, EventStream.lines_oneLines fun line hline => (hone line hline).1,
    List.map_congr_left fun line hline => (hone line hline).2, List.map_id', hwritten]
  rfl

/-- The lines of such an event dispatch it: the type is set, then the data. -/
theorem interpret_price {serde : SerdeJson} (hserde : serde.Compact) (msg : PubSubMessage)
    (rest : List EventStream.Text) {b : Buffers} (hb : b.Clear) (hid : b.lastId = []) :
    interpret b (EventStream.lines (priceEvent serde msg).serialize.toList ++ rest)
      = shown serde msg :: interpret { b with data := [], type := [] } rest := by
  have hdata : ["data: ".toList ++ (serde.toText msg.payload).toList, []]
      = [(serde.toText msg.payload).toList].map ("data: ".toList ++ ·) ++ [[]] := by
    rw [List.map_singleton, List.singleton_append]
  rw [lines_price hserde, List.cons_append, EventStream.interpret_type, hdata, List.append_assoc,
    List.singleton_append, EventStream.interpret_data, EventStream.interpret_dispatch]
  · dsimp only
    rw [hb.data, List.flatMap_singleton, List.nil_append, List.dropLast_concat, hid]
    rfl
  · rw [List.flatMap_singleton]
    exact fun h => List.append_ne_nil_of_right_ne_nil _ (List.append_ne_nil_of_right_ne_nil _ (by decide)) h

theorem interpret_prices {serde : SerdeJson} (hserde : serde.Compact) (msgs : List PubSubMessage) : ∀ b : Buffers,
    b.Clear → b.lastId = [] →
    interpret b (msgs.flatMap fun msg => EventStream.lines (priceEvent serde msg).serialize.toList)
      = msgs.map (shown serde) := by
  induction msgs with
  | nil =>
      intro b _ _
      rfl
  | cons msg msgs ih =>
      intro b hb hid
      rw [List.flatMap_cons, interpret_price hserde msg _ hb hid, List.map_cons,
        ih { b with data := [], type := [] } ⟨rfl, rfl⟩ hid]

theorem events_prices {serde : SerdeJson} (hserde : serde.Compact) (msgs : List PubSubMessage) :
    EventStream.events (SseStreaming.eventStream (msgs.map (priceEvent serde))) = msgs.map (shown serde) := by
  have hends : ∀ msg ∈ msgs, ∃ text, (priceEvent serde msg).serialize.toList = text ++ ['\n'] :=
    fun msg _ => (SseStreaming.lines_serialize _).1
  unfold EventStream.events
  rw [SseStreaming.eventStream_eq, EventStream.decode_asBytes (by
    rw [String.toList_ofList]; exact SseStreaming.eventStream_head _), String.toList_ofList, List.flatMap_map,
    EventStream.lines_flatMap _ hends]
  exact interpret_prices hserde msgs _ EventStream.clear_empty rfl

/-! ### The PubSub server -/

/-- What was sent on a channel. -/
abbrev sentTo (server : Server) (id : Nat) : List PubSubMessage := Mpsc.sentOn server.chans id

theorem sentTo_drop (server : Server) (id j : Nat) : sentTo (server.drop id) j = sentTo server j :=
  Mpsc.sentOn_drop ..

/-- What was sent stays sent, and the channels stay. -/
theorem handleCommand_sent {s : Server} {h : List PubSubCommand} (hs : PubSub.Agrees s.topics s.chans h)
    (cmd : PubSubCommand) : s.chans.length ≤ (PubSub.handleCommand cmd s).1.chans.length ∧
      ∀ id < s.chans.length, sentTo s id <+: sentTo (PubSub.handleCommand cmd s).1 id := by
  have hhub : s.hub.count ≤ (PubSub.handleCommand cmd s).1.hub.count ∧
      ∀ id < s.hub.count, s.hub.sent id <+: (PubSub.handleCommand cmd s).1.hub.sent id := by
    cases cmd with
    | subscribe topic reply =>
        rw [PubSub.hub_subscribe]
        refine ⟨Nat.le_succ _, fun id hid => ?_⟩
        show _ <+: if id = s.hub.count then [] else s.hub.sent id
        rw [if_neg (Nat.ne_of_lt hid)]
    | broadcast topic msg =>
        rw [PubSub.hub_broadcast msg (hs.nodup topic)]
        refine ⟨Nat.le_refl _, fun id _ => ?_⟩
        show _ <+: if id ∈ s.hub.senders topic ∧ s.hub.alive id then s.hub.sent id ++ [msg] else s.hub.sent id
        split_ifs
        · exact List.prefix_append ..
        · exact List.prefix_rfl
    | unsubscribe topic =>
        rw [PubSub.hub_unsubscribe]
        exact ⟨Nat.le_refl _, fun id _ => List.prefix_rfl⟩
    | shutdown => exact ⟨Nat.le_refl _, fun id _ => List.prefix_rfl⟩
  exact hhub

/-- A handler that has asked, and what it was answered. -/
structure Answers (s : Server) : Prop where
  tracks : Tracks s
  /-- the reply channel of a `Subscribe` is its place -/
  own : ∀ (i : Nat) (t : String) (reply : Nat),
    s.enqueued[i]? = some (PubSubCommand.subscribe t reply) → reply = i
  answered : ∀ (reply id : Nat), (reply, id) ∈ s.replies →
    ∃ pre t post, s.handled = pre ++ .subscribe t reply :: post ∧ (subscriptions pre).length = id

theorem Answers.lt {s : Server} (ha : Answers s) {reply id : Nat} (h : (reply, id) ∈ s.replies) :
    id < s.chans.length := by
  obtain ⟨pre, t, post, hhandled, rfl⟩ := ha.answered reply id h
  rw [ha.tracks.count, hhandled]
  unfold PubSub.subscriptions
  rw [List.filterMap_append, List.length_append, List.filterMap_cons]
  simp

/-- What a step of the PubSub server leaves of the channels, the queue and the replies. -/
structure Onward (s : Server) (l : PubSub.Label) (s' : Server) : Prop where
  sent : ∀ id < s.chans.length, sentTo s id <+: sentTo s' id
  enqueued : s.enqueued <+: s'.enqueued
  replies : ∀ pair ∈ s.replies, pair ∈ s'.replies
  fresh : ∀ reply id, (reply, id) ∈ s'.replies → (reply, id) ∈ s.replies ∨ aliveAt s'.chans id = true
  alive : ∀ id, l ≠ .drop id → aliveAt s.chans id = true → aliveAt s'.chans id = true

theorem Onward.of_same {s s' : Server} {l : PubSub.Label} (hchans : s'.chans = s.chans) (henqueued : s.enqueued <+: s'.enqueued)
    (hreplies : s'.replies = s.replies) : Onward s l s' where
  sent id _ := by rw [sentTo, sentTo, hchans]
  enqueued := henqueued
  replies := by simp [hreplies]
  fresh reply id h := Or.inl (hreplies ▸ h)
  alive id _ h := by rw [hchans]; exact h

theorem Answers.enqueue {s : Server} (ha : Answers s) {cmd : PubSubCommand} (hplain : ∀ t, cmd ≠ .unsubscribe t)
    (hnew : ∀ t reply, cmd = .subscribe t reply → reply = s.enqueued.length) :
    Answers (s.enqueue cmd) ∧ Onward s (.client cmd) (s.enqueue cmd) := by
  have htracks := PubSub.tracks_enqueue ha.tracks hplain
  unfold Server.enqueue at htracks ⊢
  split_ifs at htracks ⊢ with hstopped
  · exact ⟨ha, .of_same rfl List.prefix_rfl rfl⟩
  · refine ⟨⟨htracks, ?_, ha.answered⟩, .of_same rfl (List.prefix_append ..) rfl⟩
    intro i t reply hi
    rcases Nat.lt_trichotomy i s.enqueued.length with hlt | rfl | hgt
    · rw [List.getElem?_append_left hlt] at hi
      exact ha.own i t reply hi
    · rw [List.getElem?_concat_length] at hi
      exact hnew t reply (Option.some.inj hi)
    · rw [List.getElem?_eq_none (by rw [List.length_append]; exact hgt)] at hi
      cases hi

theorem Answers.serve {s s' : Server} (ha : Answers s) (h : s.serve = some s') :
    Answers s' ∧ Onward s .serve s' := by
  have htracks := PubSub.tracks_serve ha.tracks h
  rcases PubSub.serve_cases h with ⟨-, -, rfl⟩ | ⟨cmd, queue, -, hqueue, rfl⟩
  · exact ⟨⟨htracks, ha.own, ha.answered⟩, .of_same rfl List.prefix_rfl rfl⟩
  · have hagrees := PubSub.tracks_agrees ha.tracks
    obtain ⟨-, hhandled, henqueued, -⟩ := PubSub.handleCommand_frame cmd { s with queue, handled := s.handled ++ [cmd] }
    have hreplies := PubSub.handleCommand_replies cmd { s with queue, handled := s.handled ++ [cmd] }
    obtain ⟨-, hsent⟩ := handleCommand_sent (s := { s with queue, handled := s.handled ++ [cmd] }) hagrees cmd
    have halive (id : Nat) : aliveAt s.chans id = true → aliveAt
        (PubSub.handleCommand cmd { s with queue, handled := s.handled ++ [cmd] }).1.chans id = true :=
      PubSub.aliveAt_handleCommand (s := { s with queue, handled := s.handled ++ [cmd] }) hagrees
    refine ⟨⟨htracks, ?_, ?_⟩, ?_⟩
    · intro i t reply hi
      dsimp only at hi
      rw [henqueued] at hi
      exact ha.own i t reply hi
    · intro reply id hmem
      dsimp only at hmem ⊢
      rw [hreplies] at hmem
      rw [hhandled]
      rcases List.mem_append.mp hmem with hold | hnew
      · obtain ⟨pre, t, post, hsplit, hid⟩ := ha.answered reply id hold
        refine ⟨pre, t, post ++ [cmd], ?_, hid⟩
        show s.handled ++ [cmd] = _
        rw [hsplit, List.append_assoc, List.cons_append]
      · cases cmd with
        | subscribe topic reply' =>
            obtain ⟨rfl, rfl⟩ := Prod.mk.inj (List.mem_singleton.mp hnew)
            exact ⟨s.handled, topic, [], rfl, ha.tracks.count.symm⟩
        | broadcast | unsubscribe | shutdown => cases hnew
    · refine ⟨hsent, by dsimp only; rw [henqueued], ?_, ?_, fun id _ => halive id⟩
      · intro pair hpair
        dsimp only
        rw [hreplies]
        exact List.mem_append_left _ hpair
      · intro reply id hmem
        dsimp only at hmem
        rw [hreplies] at hmem
        rcases List.mem_append.mp hmem with hold | hnew
        · exact Or.inl hold
        · cases cmd with
          | subscribe topic reply' =>
              obtain ⟨rfl, rfl⟩ := Prod.mk.inj (List.mem_singleton.mp hnew)
              exact Or.inr (PubSub.aliveAt_new topic reply _)
          | broadcast | unsubscribe | shutdown => cases hnew

theorem Answers.drop {s : Server} (ha : Answers s) (id : Nat) :
    Answers (s.drop id) ∧ Onward s (.drop id) (s.drop id) := by
  refine ⟨⟨PubSub.tracks_drop ha.tracks id, ha.own, ha.answered⟩, ?_⟩
  refine ⟨?_, List.prefix_rfl, fun _ h => h, fun _ _ h => Or.inl h, ?_⟩
  · intro j _
    rw [sentTo_drop]
  · intro j hne halive
    exact PubSub.aliveAt_drop (fun heq => hne (congrArg _ heq)) halive

/-- **A step of the PubSub server**, in which nothing is unsubscribed and a new call has a new reply channel. -/
theorem Answers.step {s s' : Server} {l : PubSub.Label} (ha : Answers s) (hplain : ∀ t, l ≠ .client (.unsubscribe t))
    (hnew : ∀ t reply, l = .client (.subscribe t reply) → reply = s.enqueued.length)
    (h : PubSub.step s l = some s') : Answers s' ∧ Onward s l s' := by
  cases l with
  | client cmd =>
      cases h
      exact ha.enqueue (fun t hcmd => hplain t (hcmd ▸ rfl)) fun t reply hcmd => hnew t reply (hcmd ▸ rfl)
  | serve => exact ha.serve h
  | hangup =>
      have htracks := PubSub.tracks_hangup ha.tracks h
      unfold PubSub.step Server.hangup at h
      dsimp only at h
      split_ifs at h
      cases h
      exact ⟨⟨htracks, ha.own, ha.answered⟩, .of_same rfl List.prefix_rfl rfl⟩
  | drop id =>
      cases h
      exact ha.drop id

/-! ### The task -/

variable {serde : SerdeJson} {head : List UInt8}

def isPrice (msg : PubSubMessage) : Bool := msg.event == "price_updated"

/-- The events for the prices among some messages. -/
def priceEvents (serde : SerdeJson) (msgs : List PubSubMessage) : List Sse.Event :=
  (msgs.filter isPrice).map (priceEvent serde)

/-- The stream of the route. -/
abbrev priceLoop (head : List UInt8) : Lts.System SseStreaming.Stream SseStreaming.Label :=
  SseStreaming.system head (some pricesKeepAlive)

/-- What the task has done with what is on its receiver. -/
structure Relay.Ok (serde : SerdeJson) (head : List UInt8) (server : Server) (r : Relay) : Prop where
  loop : ∃ labels, (priceLoop head).exec (priceLoop head).init labels = some r.stream
  sender : r.running = true → r.stream.sender = true
  unanswered : r.rx = none → r.running = false ∧ r.stream.sent = []
  sent : ∀ rx, r.rx = some rx → r.stream.sent <+: priceEvents serde (sentTo server rx) ∧
    (r.running = true → r.received ≤ (sentTo server rx).length ∧
      r.stream.sent = priceEvents serde ((sentTo server rx).take r.received))

theorem priceEvents_append (msgs msgs' : List PubSubMessage) :
    priceEvents serde (msgs ++ msgs') = priceEvents serde msgs ++ priceEvents serde msgs' := by
  unfold priceEvents
  rw [List.filter_append, List.map_append]

theorem priceEvents_begin {msgs msgs' : List PubSubMessage} (h : msgs <+: msgs') :
    priceEvents serde msgs <+: priceEvents serde msgs' := (h.filter _).map _

/-- The task's receiver gets more, and the task has not yet seen it. -/
theorem Relay.Ok.mono {server server' : Server} {r : Relay} (hr : r.Ok serde head server)
    (h : ∀ rx, r.rx = some rx → sentTo server rx <+: sentTo server' rx) : r.Ok serde head server' where
  loop := hr.loop
  sender := hr.sender
  unanswered := hr.unanswered
  sent rx hrx := by
    obtain ⟨hbegins, hrunning⟩ := hr.sent rx hrx
    have hmore := h rx hrx
    refine ⟨hbegins.trans (priceEvents_begin hmore), fun hrun => ?_⟩
    obtain ⟨hle, hsent⟩ := hrunning hrun
    refine ⟨Nat.le_trans hle hmore.length_le, ?_⟩
    obtain ⟨more, hmore⟩ := hmore
    rw [← hmore, List.take_append_of_le_length hle, hsent]

/-- A step of the stream's loop that is none of the task's. -/
theorem Relay.Ok.stream {server : Server} {r : Relay} (hr : r.Ok serde head server) {l : SseStreaming.Label}
    (hsend : ∀ event, l ≠ .send event) (hdrop : l ≠ .dropSender) {stream : SseStreaming.Stream}
    (h : SseStreaming.step r.stream l = some stream) : ({ r with stream } : Relay).Ok serde head server := by
  obtain ⟨labels, hlabels⟩ := hr.loop
  have hsame : stream.sent = r.stream.sent ∧ stream.sender = r.stream.sender := by
    cases SseStreaming.turn_of_step h with
    | sent event => exact absurd rfl (hsend event)
    | refused event => exact absurd rfl (hsend event)
    | dropped => exact absurd rfl hdrop
    | received | closed | elapsed | wrote | failed => exact ⟨rfl, rfl⟩
  refine ⟨⟨labels ++ [l], ?_⟩, ?_, ?_, ?_⟩
  · rw [Lts.exec_append, hlabels, Option.bind_some, Lts.exec_step h, Lts.exec_nil]
  · intro hrun
    exact hsame.2.trans (hr.sender hrun)
  · intro hnone
    obtain ⟨hstopped, hsent⟩ := hr.unanswered hnone
    exact ⟨hstopped, hsame.1.trans hsent⟩
  · intro rx hrx
    dsimp only
    rw [hsame.1]
    exact hr.sent rx hrx

theorem Relay.Ok.stop {server : Server} {r : Relay} (hr : r.Ok serde head server) (hrun : r.running = true)
    (received : Nat) : ({ r with received } : Relay).stop.Ok serde head server := by
  obtain ⟨labels, hlabels⟩ := hr.loop
  refine ⟨⟨labels ++ [.dropSender], ?_⟩, fun h => (nomatch h), ?_, ?_⟩
  · have hstep : (priceLoop head).step r.stream .dropSender = some { r.stream with sender := false } :=
      if_pos (hr.sender hrun)
    rw [Lts.exec_append, hlabels, Option.bind_some, Lts.exec_step hstep, Lts.exec_nil]
    rfl
  · intro hnone
    exact ⟨rfl, (hr.unanswered hnone).2⟩
  · intro rx hrx
    exact ⟨(hr.sent rx hrx).1, fun h => (nomatch h)⟩

theorem sentTo_getElem? (server : Server) (rx i : Nat) :
    ((server.chans[rx]?).bind fun c => c.sent[i]?) = (sentTo server rx)[i]? := by
  unfold sentTo Mpsc.sentOn
  cases server.chans[rx]? <;> rfl

/-- The task has taken a message off its receiver, and sent what it makes of it. -/
theorem Relay.Ok.received {server : Server} {r : Relay} (hr : r.Ok serde head server) (hrun : r.running = true)
    {rx : Nat} (hrx : r.rx = some rx) {msg : PubSubMessage} (hmsg : (sentTo server rx)[r.received]? = some msg)
    {stream : SseStreaming.Stream} (hloop : ∃ labels, (priceLoop head).exec (priceLoop head).init labels = some stream)
    (hsender : stream.sender = r.stream.sender)
    (hsent : stream.sent = r.stream.sent ++ priceEvents serde [msg]) :
    ({ r with received := r.received + 1, stream } : Relay).Ok serde head server := by
  obtain ⟨-, hsofar⟩ := (hr.sent rx hrx).2 hrun
  have hlt := (List.getElem?_eq_some_iff.mp hmsg).1
  have htake : stream.sent = priceEvents serde ((sentTo server rx).take (r.received + 1)) := by
    rw [hsent, hsofar, List.take_add_one, hmsg, priceEvents_append]
    rfl
  refine ⟨hloop, fun _ => hsender.trans (hr.sender hrun), ?_, ?_⟩
  · intro hnone
    cases hrx.symm.trans hnone
  · intro rx' hrx'
    obtain rfl := Option.some.inj (hrx.symm.trans hrx')
    refine ⟨?_, fun _ => ⟨hlt, htake⟩⟩
    dsimp only
    rw [htake]
    exact priceEvents_begin (List.take_prefix ..)

/-- **A round of the task** takes one message off the receiver, if there is one. -/
theorem Relay.Ok.tryRecv {server server' : Server} {r r' : Relay} (hr : r.Ok serde head server)
    (h : r.tryRecv serde server = some (server', r')) : ∃ rx, r.rx = some rx ∧ r'.rx = some rx ∧
      r'.Ok serde head server' ∧ r.running = true ∧
      (server' = server ∧ r'.running = true ∨ server' = server.drop rx ∧ r'.running = false) := by
  have hstop (rx received : Nat) (hrun : r.running = true) :
      ({ r with received } : Relay).stop.Ok serde head (server.drop rx) :=
    (hr.stop hrun received).mono fun rx' _ => by rw [sentTo_drop]
  unfold Relay.tryRecv at h
  split at h
  · rename_i rx hrun hrx
    rw [sentTo_getElem?] at h
    refine ⟨rx, hrx, ?_⟩
    split at h
    · rename_i msg hmsg
      dsimp only at h
      split_ifs at h with hprice hreceiver
      · obtain ⟨rfl, rfl⟩ := Prod.mk.inj (Option.some.inj h)
        have hsend : r.stream.send (priceEvent serde msg) = { r.stream with
            queue := Sse.SseSender.send r.stream.queue (priceEvent serde msg)
            sent := r.stream.sent ++ [priceEvent serde msg] } := if_pos hreceiver
        have hstep : (priceLoop head).step r.stream (.send (priceEvent serde msg))
            = some (r.stream.send (priceEvent serde msg)) := if_pos (hr.sender hrun)
        obtain ⟨labels, hlabels⟩ := hr.loop
        refine ⟨hrx, hr.received hrun hrx hmsg ⟨labels ++ [.send (priceEvent serde msg)], ?_⟩ ?_ ?_, hrun,
          Or.inl ⟨rfl, hrun⟩⟩
        · rw [Lts.exec_append, hlabels, Option.bind_some, Lts.exec_step hstep, Lts.exec_nil]
        · rw [hsend]
        · rw [hsend]
          simp [priceEvents, isPrice, hprice]
      · obtain ⟨rfl, rfl⟩ := Prod.mk.inj (Option.some.inj h)
        exact ⟨hrx, hstop rx _ hrun, hrun, Or.inr ⟨rfl, rfl⟩⟩
      · obtain ⟨rfl, rfl⟩ := Prod.mk.inj (Option.some.inj h)
        refine ⟨hrx, hr.received hrun hrx hmsg hr.loop rfl ?_, hrun, Or.inl ⟨rfl, hrun⟩⟩
        simp [priceEvents, isPrice, hprice]
    · split_ifs at h
      · obtain ⟨rfl, rfl⟩ := Prod.mk.inj (Option.some.inj h)
        exact ⟨hrx, hr, hrun, Or.inl ⟨rfl, hrun⟩⟩
      · obtain ⟨rfl, rfl⟩ := Prod.mk.inj (Option.some.inj h)
        exact ⟨hrx, hstop rx r.received hrun, hrun, Or.inr ⟨rfl, rfl⟩⟩
  · cases h

/-- The handler, the task and the PubSub server fit together. -/
structure PriceStream.Ok (serde : SerdeJson) (head : List UInt8) (s : PriceStream) : Prop where
  answers : Answers s.server
  asked : ∀ reply, s.asked = some reply → s.server.enqueued[reply]? = some (.subscribe "prices" reply)
  /-- the receiver that the handler gets is there until the task ends -/
  alive : ∀ reply id, s.asked = some reply → (reply, id) ∈ s.server.replies →
    (∀ r, s.relay = some r → r.running = true) → aliveAt s.server.chans id = true
  relay : ∀ r, s.relay = some r → r.Ok serde head s.server ∧
    ∀ rx, r.rx = some rx → ∃ reply, s.asked = some reply ∧ (reply, rx) ∈ s.server.replies

/-- An answer is for a `Subscribe` that the queue has accepted. -/
theorem Answers.accepted {s : Server} (ha : Answers s) {reply id : Nat} (h : (reply, id) ∈ s.replies) :
    ∃ t, s.enqueued[reply]? = some (PubSubCommand.subscribe t reply) := by
  obtain ⟨pre, t, post, hhandled, -⟩ := ha.answered reply id h
  have hat : s.enqueued[pre.length]? = some (PubSubCommand.subscribe t reply) := by
    rw [ha.tracks.fifo, hhandled]
    simp
  obtain rfl := ha.own _ _ _ hat
  exact ⟨t, hat⟩

theorem ok_pubsub {s : PriceStream} (hs : s.Ok serde head) {l : PubSub.Label} (hothers : s.others l = true)
    (hplain : ∀ t, l ≠ .client (.unsubscribe t)) {server : Server} (h : PubSub.step s.server l = some server) :
    ({ s with server } : PriceStream).Ok serde head := by
  have hnew : ∀ t reply, l = .client (.subscribe t reply) → reply = s.server.enqueued.length := by
    rintro t reply rfl
    simpa [PriceStream.others] using hothers
  obtain ⟨hanswers, honward⟩ := hs.answers.step hplain hnew h
  refine ⟨hanswers, ?_, ?_, ?_⟩
  · intro reply hasked
    have hat := hs.asked reply hasked
    obtain ⟨more, hmore⟩ := honward.enqueued
    dsimp only
    rw [← hmore, List.getElem?_append_left (List.getElem?_eq_some_iff.mp hat).1, hat]
  · intro reply id hasked hmem hrunning
    rcases honward.fresh reply id hmem with hold | halive
    · refine honward.alive id ?_ (hs.alive reply id hasked hold hrunning)
      rintro rfl
      have hmine : s.asked.any (fun reply => s.server.replies.contains (reply, id)) = true := by
        rw [hasked]
        simpa using hold
      rw [PriceStream.others, hmine] at hothers
      cases hothers
    · exact halive
  · intro r hr
    obtain ⟨hok, hreply⟩ := hs.relay r hr
    refine ⟨hok.mono fun rx hrx => ?_, fun rx hrx => ?_⟩
    · obtain ⟨reply, -, hmem⟩ := hreply rx hrx
      exact honward.sent rx (hs.answers.lt hmem)
    · obtain ⟨reply, hasked, hmem⟩ := hreply rx hrx
      exact ⟨reply, hasked, honward.replies _ hmem⟩

theorem ok_step {s s' : PriceStream} {l : PriceLabel} (hs : s.Ok serde head)
    (hplain : ∀ t, l ≠ .pubsub (.client (.unsubscribe t))) (h : (priceSystem serde head).step s l = some s') :
    s'.Ok serde head := by
  change PriceStream.step serde (priceLoop head).init s l = some s' at h
  cases l with
  | pubsub l =>
      dsimp only [PriceStream.step] at h
      split_ifs at h with hothers
      obtain ⟨server, hserver, rfl⟩ := Option.map_eq_some_iff.mp h
      exact ok_pubsub hs hothers (fun t hl => hplain t (hl ▸ rfl)) hserver
  | ask =>
      dsimp only [PriceStream.step] at h
      split_ifs at h with hfirst
      obtain rfl := Option.some.inj h
      simp only [Bool.and_eq_true, Option.isNone_iff_eq_none, bne_iff_ne] at hfirst
      obtain ⟨⟨hasked, hrelay⟩, hrunning⟩ := hfirst
      have hanswers : Answers (s.server.enqueue (PubSub.subscribe "prices" s.server.enqueued.length)) := by
        refine (hs.answers.enqueue ?_ ?_).1
        · intro t h
          cases h
        · intro t reply h
          cases h
          rfl
      have hreplies : (s.server.enqueue (PubSub.subscribe "prices" s.server.enqueued.length)).replies
          = s.server.replies := by
        rw [Server.enqueue, if_neg hrunning]
      refine ⟨hanswers, ?_, ?_, ?_⟩
      · intro reply hreply
        obtain rfl := Option.some.inj hreply
        dsimp only
        rw [Server.enqueue, if_neg hrunning]
        exact List.getElem?_concat_length
      · intro reply id hreply hmem _
        obtain rfl := Option.some.inj hreply
        dsimp only at hmem
        rw [hreplies] at hmem
        obtain ⟨t, hat⟩ := hs.answers.accepted hmem
        exact absurd (List.getElem?_eq_some_iff.mp hat).1 (Nat.lt_irrefl _)
      · intro r hr
        cases hrelay.symm.trans hr
  | answered rx =>
      dsimp only [PriceStream.step] at h
      split at h
      · rename_i reply hasked hnone
        split_ifs at h with hmem
        obtain rfl := Option.some.inj h
        refine ⟨hs.answers, hs.asked, ?_, ?_⟩
        · intro reply id hasked hmem _
          exact hs.alive reply id hasked hmem (by simp [hnone])
        · intro r hr
          obtain rfl := Option.some.inj hr
          refine ⟨⟨⟨[], rfl⟩, fun _ => rfl, fun h => (nomatch h), fun rx _ => ⟨List.nil_prefix, fun _ =>
            ⟨Nat.zero_le _, rfl⟩⟩⟩, ?_⟩
          intro rx' hrx
          obtain rfl := Option.some.inj hrx
          exact ⟨reply, hasked, by simpa using hmem⟩
      · cases h
  | unanswered =>
      dsimp only [PriceStream.step] at h
      split_ifs at h with hstopped
      obtain rfl := Option.some.inj h
      simp only [Bool.and_eq_true, Option.isNone_iff_eq_none] at hstopped
      obtain ⟨⟨hnone, -⟩, hno⟩ := hstopped
      refine ⟨hs.answers, hs.asked, ?_, ?_⟩
      · intro reply id hasked hmem _
        exact hs.alive reply id hasked hmem (by simp [hnone])
      · intro r hr
        obtain rfl := Option.some.inj hr
        exact ⟨⟨⟨[.dropSender], rfl⟩, fun h => (nomatch h), fun _ => ⟨rfl, rfl⟩, fun _ h => (nomatch h)⟩,
          fun _ h => (nomatch h)⟩
  | tryRecv =>
      obtain ⟨⟨server, r'⟩, hround, rfl⟩ := Option.map_eq_some_iff.mp h
      obtain ⟨r, hr, hround⟩ := Option.bind_eq_some_iff.mp hround
      obtain ⟨hok, hreply⟩ := hs.relay r hr
      obtain ⟨rx, hrx, hrx', hok', hrun, hserver⟩ := hok.tryRecv hround
      have hmine : ∀ r'', some r' = some r'' → r''.Ok serde head server ∧
          ∀ rx', r''.rx = some rx' → ∃ reply, s.asked = some reply ∧ (reply, rx') ∈ s.server.replies := by
        intro r'' hr''
        obtain rfl := Option.some.inj hr''
        refine ⟨hok', fun rx'' hrx'' => hreply rx'' ?_⟩
        rw [hrx, ← hrx', hrx'']
      rcases hserver with ⟨rfl, hrun'⟩ | ⟨rfl, hended⟩
      · refine ⟨hs.answers, hs.asked, fun reply id hasked hmem _ => ?_, hmine⟩
        refine hs.alive reply id hasked hmem fun r'' hr'' => ?_
        obtain rfl := Option.some.inj (hr.symm.trans hr'')
        exact hrun
      · refine ⟨(hs.answers.drop rx).1, hs.asked, fun reply id _ _ hrunning => ?_, hmine⟩
        cases hended.symm.trans (hrunning r' rfl)
  | stream l =>
      dsimp only [PriceStream.step] at h
      split at h
      · cases h
      · cases h
      · cases h
      · rename_i r hr hsend hdrop
        obtain ⟨stream, hstream, rfl⟩ := Option.map_eq_some_iff.mp h
        obtain ⟨hok, hreply⟩ := hs.relay r hr
        refine ⟨hs.answers, hs.asked, ?_, ?_⟩
        · intro reply id hasked hmem hrunning
          refine hs.alive reply id hasked hmem fun r' hr' => ?_
          obtain rfl := Option.some.inj (hr.symm.trans hr')
          exact hrunning { r with stream } rfl
        · intro r' hr'
          obtain rfl := Option.some.inj hr'
          refine ⟨hok.stream ?_ ?_ hstream, hreply⟩
          · rintro event rfl
            exact hsend event rfl
          · rintro rfl
            exact hdrop rfl

theorem ok_run {labels : List PriceLabel} {s : PriceStream}
    (hplain : ∀ t, PriceLabel.pubsub (.client (.unsubscribe t)) ∉ labels)
    (h : (priceSystem serde head).exec (priceSystem serde head).init labels = some s) : s.Ok serde head := by
  have halong : (priceSystem serde head).Along (fun _ l => ∀ t, l ≠ PriceLabel.pubsub (.client (.unsubscribe t)))
      (priceSystem serde head).init labels :=
    Lts.along_of_mem fun l hl t hlt => hplain t (by rw [← hlt]; exact hl)
  refine Lts.exec_invariant_along ?_ (fun s l s' hs hl hstep => ok_step hs hl hstep) halong h
  exact ⟨⟨PubSub.tracks_start, fun _ _ _ h => (nomatch h), fun _ _ h => (nomatch h)⟩, fun _ h => (nomatch h),
    fun _ _ h => (nomatch h), fun _ h => (nomatch h)⟩

/-! ### What the browser sees -/

/-- The prices that were broadcast, as a browser dispatches them. -/
def pricesShown (serde : SerdeJson) (cmds : List PubSubCommand) : List Message :=
  ((broadcastsOn "prices" cmds).filter isPrice).map (shown serde)

/-- The bytes behind the head of the response. -/
def Relay.body (head : List UInt8) (r : Relay) : List UInt8 := r.stream.wire.drop head.length

/-- The events for some prices, some of which were sent, are dispatched as these. -/
theorem events_sent (hserde : serde.Compact) {sent : List Sse.Event} {msgs : List PubSubMessage}
    (h : sent <+: priceEvents serde msgs) :
    EventStream.events (SseStreaming.eventStream sent) <+: (msgs.filter isPrice).map (shown serde) := by
  unfold priceEvents at h
  rw [List.prefix_iff_eq_take, ← List.map_take] at h
  rw [h, events_prices hserde]
  exact (List.take_prefix ..).map _

/--
**A browser sees the prices as they are broadcast.**  In every interleaving of the PubSub
server, its clients, the task and the loop over the stream, as long as nobody
unsubscribes a topic: a handler whose subscription was taken has got the receiver of the
very subscription it asked for; what the browser has dispatched is the beginning of the
prices that the server has handled behind it, in order, each once and with its text, and
nothing else; and, while the task runs, it is all of them when the task has emptied its
receiver and the loop waits for more.  A handler without an answer sends nothing.
-/
theorem prices_relayed (hserde : serde.Compact) {labels : List PriceLabel} {s : PriceStream}
    (hplain : ∀ t, PriceLabel.pubsub (.client (.unsubscribe t)) ∉ labels)
    (h : (priceSystem serde head).exec (priceSystem serde head).init labels = some s) {r : Relay}
    (hr : s.relay = some r) :
    (r.rx = none ∧ EventStream.events (r.body head) = []) ∨
    ∃ pre reply post, s.asked = some reply ∧ s.server.handled = pre ++ .subscribe "prices" reply :: post ∧
      r.rx = some (subscriptions pre).length ∧
      EventStream.events (r.body head) <+: pricesShown serde post ∧
      (r.running = true → r.received = (sentTo s.server (subscriptions pre).length).length →
        r.stream.phase = .waiting → r.stream.queue = [] →
        EventStream.events (r.body head) = pricesShown serde post) := by
  have hs := ok_run hplain h
  obtain ⟨hok, hreply⟩ := hs.relay r hr
  obtain ⟨labels, hlabels⟩ := hok.loop
  obtain ⟨hka, pieces, rest, hp⟩ := SseStreaming.progress_run hlabels
  have hcomment : ∀ ka, r.stream.keepAlive = some ka → OneLine ka.text.toList := by
    rintro ka hsome
    obtain rfl := Option.some.inj (hka.symm.trans hsome)
    decide
  obtain ⟨hdispatched, hall⟩ := hp.dispatched hcomment
  cases hrx : r.rx with
  | none =>
      left
      rw [(hok.unanswered hrx).2] at hdispatched
      exact ⟨rfl, List.prefix_nil.mp hdispatched⟩
  | some rx =>
      right
      obtain ⟨reply, hasked, hmem⟩ := hreply rx hrx
      obtain ⟨pre, t, post, hhandled, rfl⟩ := hs.answers.answered reply rx hmem
      -- the reply channel is that of the handler's own call
      obtain rfl : t = "prices" := by
        have hat : s.server.enqueued[pre.length]? = some (PubSubCommand.subscribe t reply) := by
          rw [hs.answers.tracks.fifo, hhandled]
          simp
        obtain rfl := hs.answers.own _ _ _ hat
        have := hat.symm.trans (hs.asked _ hasked)
        simpa using this
      obtain ⟨c, hc, hbegins, hlive⟩ := hs.answers.tracks.sent pre "prices" reply post hhandled
      have hsentTo : sentTo s.server (subscriptions pre).length = c.sent := Mpsc.sentOn_eq hc
      obtain ⟨hsofar, hrunning⟩ := hok.sent _ hrx
      rw [hsentTo] at hsofar hrunning
      refine ⟨pre, reply, post, hasked, hhandled, rfl, ?_, ?_⟩
      · exact hdispatched.trans (events_sent hserde (hsofar.trans (priceEvents_begin hbegins)))
      · intro hrun hreceived hwaiting hempty
        have halive : c.alive = true := by
          have := hs.alive reply _ hasked hmem fun r' hr' => by
            obtain rfl := Option.some.inj (hr.symm.trans hr')
            exact hrun
          exact (Mpsc.aliveAt_eq hc).symm.trans this
        have hsent := (hrunning hrun).2
        rw [hsentTo] at hreceived
        rw [hreceived, List.take_length, hlive halive] at hsent
        have hend := hall (Or.inr ⟨hwaiting, hempty⟩)
        rw [hsent, priceEvents, events_prices hserde] at hend
        exact hend

/-- `serde_json`, as far as objects are empty. -/
def emptyObjects : SerdeJson := { fromSlice := fun _ => none, toText := fun _ => "\x7b\x7d" }

/-- A price is broadcast before the subscription, and one behind it. -/
def oneRelayed : List PriceLabel :=
  let price := PubSub.Label.client (PubSub.broadcastArc "prices" "price_updated" (.object []))
  [.pubsub price, .ask, .pubsub .serve, .pubsub .serve, .answered 0, .pubsub price, .stream .wrote, .tryRecv,
    .pubsub .serve, .tryRecv, .stream .recv, .stream .wrote]

theorem prices_relayed_one : ∃ s r, (priceSystem emptyObjects []).exec (priceSystem emptyObjects []).init oneRelayed
    = some s ∧ s.relay = some r ∧ r.body [] ≠ [] ∧
    ((r.rx = none ∧ EventStream.events (r.body []) = []) ∨
    ∃ pre reply post, s.asked = some reply ∧ s.server.handled = pre ++ .subscribe "prices" reply :: post ∧
      r.rx = some (subscriptions pre).length ∧
      EventStream.events (r.body []) <+: pricesShown emptyObjects post ∧
      (r.running = true → r.received = (sentTo s.server (subscriptions pre).length).length →
        r.stream.phase = .waiting → r.stream.queue = [] →
        EventStream.events (r.body []) = pricesShown emptyObjects post)) := by
  have hserde : emptyObjects.Compact := by
    intro v
    exact (by decide : "\x7b\x7d" ≠ "" ∧ '\n' ∉ "\x7b\x7d".toList ∧ '\r' ∉ "\x7b\x7d".toList)
  have hplain : ∀ t, PriceLabel.pubsub (.client (.unsubscribe t)) ∉ oneRelayed := by
    intro t
    simp [oneRelayed, PubSub.broadcastArc]
  have hrun : (((priceSystem emptyObjects []).exec (priceSystem emptyObjects []).init oneRelayed).bind
      (·.relay)).map (fun r => !(r.body []).isEmpty) = some true := by decide +kernel
  obtain ⟨r, hr, hbody⟩ := Option.map_eq_some_iff.mp hrun
  obtain ⟨s, hs, hr⟩ := Option.bind_eq_some_iff.mp hr
  exact ⟨s, r, hs, hr, by simpa using hbody, prices_relayed hserde hplain hs hr⟩

end Mahalo.TestApp
