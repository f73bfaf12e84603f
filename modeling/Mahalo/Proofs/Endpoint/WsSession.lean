/-
A WebSocket connection from the bytes of the client to the frames it reads.

The writer begins a text frame for each message it takes from `ws_out`, and the process
has put there what its events send, in their order.  The reader begins a reply to what it
parses.  So the client reads the messages of the process in their order and the replies in
theirs.  On the way in the texts are where `Conserved` says, and they are the texts of the
frames that stand at the front of the client's stream: `reader_turns` says so of the loop that
reads it.
-/
import Mahalo.Proofs.Endpoint.WsConnection
import Mahalo.Proofs.Endpoint.WsStreaming
import Mahalo.Proofs.Endpoint.WsTasks

namespace Mahalo.Channels

open Interactive

variable {α Ω : Type}

/-! ### What the process has sent -/

/-- The text an event of the process sends on `ws_tx`. -/
def messageOf (serde : SerdeJson) : Event α Ω → Option String
  | .send _ msg | .effect (.send msg) => serde.phoenixToString msg
  | _ => none

def messagesOf (serde : SerdeJson) (log : List (Event α Ω)) : List String := log.filterMap (messageOf serde)

variable {serde : SerdeJson} {s s' : Sys α Ω}

theorem enqueue_out (s : Sys α Ω) (cmd : PubSubCommand) :
    (s.enqueue cmd).out = s.out ∧ (s.enqueue cmd).conn = s.conn := by
  unfold Sys.enqueue
  split <;> exact ⟨rfl, rfl⟩

theorem perform_out {ω : Ω} {e : Event α Ω} {a : Answer Ω} (h : s.perform serde ω e = some (s', a)) :
    s'.out = s.out ++ (messageOf serde e).toList ∧ s'.conn = s.conn := by
  have hquiet : s.out = s.out ++ [] := (List.append_nil _).symm
  cases e with
  | subscribe topic =>
      simp only [Sys.perform] at h
      split at h
      · cases h
        exact ⟨hquiet, rfl⟩
      · cases h
        obtain ⟨hout, hconn⟩ := enqueue_out s (PubSub.subscribe topic s.pubsub.enqueued.length)
        exact ⟨hout.trans hquiet, hconn⟩
  | recvReply =>
      simp only [Sys.perform] at h
      split at h
      · cases h
      · split at h
        · cases h
          exact ⟨hquiet, rfl⟩
        · split at h
          · cases h
            exact ⟨hquiet, rfl⟩
          · cases h
  | effect e =>
      cases h
      cases e with
      | broadcast topic event payload =>
          obtain ⟨hout, hconn⟩ := enqueue_out s (PubSub.broadcastArc topic event payload)
          exact ⟨hout.trans hquiet, hconn⟩
      | send msg => exact ⟨rfl, rfl⟩
      | _ => exact ⟨hquiet, rfl⟩
  | send origin msg =>
      cases h
      exact ⟨rfl, rfl⟩
  | _ =>
      cases h
      exact ⟨hquiet, rfl⟩

/-- A step adds to what was sent just the messages of the events it adds to the log. -/
theorem out_step [EmptyCollection α] {router : ChannelRouter α Ω} (hw : s.Wired) {l : SysLabel Ω}
    (h : s.step serde router l = some s') :
    ∃ events, s'.conn.log = s.conn.log ++ events ∧ s'.out = s.out ++ messagesOf serde events := by
  have hquiet : ∃ events : List (Event α Ω),
      s.conn.log = s.conn.log ++ events ∧ s.out = s.out ++ messagesOf serde events :=
    ⟨[], (List.append_nil _).symm, (List.append_nil _).symm⟩
  cases l with
  | run ω =>
      simp only [Sys.step] at h
      split at h
      · rename_i e k htodo
        obtain ⟨⟨s1, a⟩, hperform, hrun⟩ := Option.bind_eq_some_iff.mp h
        obtain ⟨hout, hconn⟩ := perform_out hperform
        obtain ⟨c, hc, rfl⟩ := Option.map_eq_some_iff.mp hrun
        have hconn : s1.conn = s.conn := hconn
        rw [hconn] at hc
        unfold Conn.step at hc
        rw [htodo] at hc
        cases hc
        refine ⟨[e], rfl, ?_⟩
        show s1.out = _
        rw [hout]
        show s.out ++ (messageOf serde e).toList = s.out ++ messagesOf serde [e]
        unfold messagesOf
        cases hm : messageOf serde e with
        | none => rw [List.filterMap_cons_none hm]; rfl
        | some msg => rw [List.filterMap_cons_some hm]; rfl
      · cases h
  | finish =>
      cases step_turn hw.running h
      exact ⟨[.idle], rfl, (List.append_nil _).symm⟩
  | forward i =>
      cases step_turn hw.running h <;> exact hquiet
  | fire i =>
      cases step_turn hw.running h <;> exact hquiet
  | _ =>
      cases step_turn hw.running h
      exact hquiet

end Mahalo.Channels

namespace Mahalo.WsConnection

open WsParse WsStreaming WsWire Channels

variable {α Ω : Type}

/-! ### The turns of the reader -/

/-- What the reader does to the outside at a turn of its own. -/
def eventsAt : Label → List ReaderEvent
  | .frame f => (onFrame (fun _ => true) [] f).1
  | .invalid e => (onError [] e).1
  | .tooBig => [.write (serializeCloseFrame 1009 messageTooBigReason)]
  | .message _ | .hangup | .put .. | .fail _ => []

/-- Turns over the frames in front of a stream, and at most one more for what ended them. -/
def InFront (stream : List UInt8) (turns : List Label) : Prop :=
  ∃ frames rest last, Framing.Frames tryParseFrame stream frames rest ∧ turns = frames.map .frame ++ last ∧
    (last = [] ∨ (∃ e, tryParseFrame rest = .error e ∧ last = [.invalid e]) ∨ last = [.tooBig])

section

variable {accepts : Nat → Bool} {stream : List UInt8} {reset : Bool}

theorem onFrame_out (out : List ReaderEvent) (f : WsFrame) :
    (onFrame accepts out f).1 = out ++ eventsAt (.frame f) := by
  show _ = out ++ (onFrame (fun _ => true) [] f).1
  unfold onFrame
  split_ifs <;> simp

theorem handled_out {out out' : List ReaderEvent} {buf rest : List UInt8} {frames : List WsFrame}
    (h : Framing.Handled tryParseFrame (handler accepts) out buf frames out' rest) :
    out' = out ++ (frames.map Label.frame).flatMap eventsAt := by
  induction h with
  | done w buf => exact (List.append_nil _).symm
  | @frame w w1 w' buf rest f n frames hp hx _ ih =>
      have hout : w1 = w ++ eventsAt (.frame f) := (congrArg Prod.fst hx).symm.trans (onFrame_out w f)
      rw [ih, hout, List.append_assoc]
      rfl

/-- What the drain of a stream does is done at turns. -/
theorem drain_turns (stream : List UInt8) : ∃ turns, InFront stream turns ∧
    (Framing.drain tryParseFrame (handler accepts) [] stream).world = turns.flatMap eventsAt := by
  obtain ⟨frames, out, rest, hhandled, hended⟩ :=
    Framing.drain_ended (h := handler accepts) tryParseFrame_stable stream []
  have hout := handled_out hhandled
  rw [List.nil_append] at hout
  generalize Framing.drain tryParseFrame (handler accepts) [] stream = drained at hended
  cases hended with
  | waiting => exact ⟨_, ⟨frames, rest, [], hhandled.frames, rfl, .inl rfl⟩, by rw [List.append_nil]; exact hout⟩
  | @error e hp =>
      refine ⟨_, ⟨frames, rest, [.invalid e], hhandled.frames, rfl, .inr (.inl ⟨e, hp, rfl⟩)⟩, ?_⟩
      rw [List.flatMap_append, ← hout]
      rfl
  | @frame f n out' stop hp hx =>
      refine ⟨_, ⟨frames ++ [f], _, [], hhandled.frames.concat hp, rfl, .inl rfl⟩, ?_⟩
      rw [List.append_nil, List.map_append, List.flatMap_append, ← hout]
      refine (congrArg Prod.fst hx).symm.trans ((onFrame_out out f).trans ?_)
      simp

theorem readerRun_turns : ∀ (fuel : Nat) (r : Reader), Invariant accepts stream reset r →
    r.incoming.bytes.length < fuel →
    ∃ turns, InFront stream turns ∧ (readerRun accepts fuel r).out = turns.flatMap eventsAt := by
  intro fuel
  induction fuel with
  | zero => intro r _ h; omega
  | succ fuel ih =>
      intro r hi hfuel
      unfold readerRun
      by_cases hover : Oversized r
      · obtain ⟨frames, hhandled⟩ := hi.handled
        refine ⟨_, ⟨frames, _, [.tooBig], hhandled.frames, rfl, .inr (.inr rfl)⟩, ?_⟩
        unfold Oversized at hover
        unfold readerStep
        rw [if_pos hover, List.flatMap_append]
        show r.out ++ _ = _
        rw [handled_out hhandled]
        rfl
      · have hspec := readerStep_spec hi hover
        cases hstep : readerStep accepts r with
        | inr outcome =>
            rw [hstep] at hspec
            obtain rfl : outcome = reference accepts stream reset := hspec
            rw [reference_out]
            exact drain_turns stream
        | inl r' =>
            rw [hstep] at hspec
            have hless := hspec.2
            exact ih r' hspec.1 (by omega)

/-- **The reader goes over the frames in front of its stream**, however the stream is cut into reads. -/
theorem reader_turns (accepts : Nat → Bool) (incoming : Incoming) :
    ∃ turns, InFront incoming.bytes turns ∧ (reader accepts incoming).out = turns.flatMap eventsAt :=
  readerRun_turns _ _ (invariant_init accepts incoming) (Nat.lt_succ_self _)

end

/-! ### The run of a session -/

/-- The turns of the reader in which it does not write. -/
def turnsOf (labels : List (SessionLabel Ω)) : List Label :=
  labels.filterMap fun
    | .stream (.frame f) => some (.frame f)
    | .stream (.invalid e) => some (.invalid e)
    | .stream .tooBig => some .tooBig
    | _ => none

/-- The frames the reader has parsed. -/
def framesOf (labels : List (SessionLabel Ω)) : List WsFrame :=
  labels.filterMap fun
    | .stream (.frame f) => some f
    | _ => none

/-- The frames at some turns. -/
def framesAt (turns : List Label) : List WsFrame :=
  turns.filterMap fun
    | .frame f => some f
    | _ => none

theorem framesOf_eq (labels : List (SessionLabel Ω)) : framesOf labels = framesAt (turnsOf labels) := by
  unfold framesOf framesAt turnsOf
  rw [List.filterMap_filterMap]
  refine List.filterMap_congr fun l _ => ?_
  cases l with
  | stream turn => cases turn <;> rfl
  | _ => rfl

theorem framesAt_inFront {stream : List UInt8} {turns : List Label} (h : InFront stream turns) :
    ∃ rest, Framing.Frames tryParseFrame stream (framesAt turns) rest := by
  obtain ⟨frames, rest, last, hframes, rfl, hlast⟩ := h
  have hfirst : framesAt (frames.map .frame) = frames := by
    unfold framesAt
    rw [List.filterMap_map]
    exact List.filterMap_some
  have hnone : framesAt last = [] := by
    obtain rfl | ⟨e, -, rfl⟩ | rfl := hlast <;> rfl
  refine ⟨rest, ?_⟩
  show Framing.Frames _ _ (List.filterMap _ _) _
  rw [List.filterMap_append]
  show Framing.Frames _ _ (framesAt (frames.map .frame) ++ framesAt last) _
  rw [hfirst, hnone, List.append_nil]
  exact hframes

/-- **As far as the reader of a session has come**, the frames that it has parsed stand in front of the stream. -/
theorem frames_of_turns {stream : List UInt8} {turns : List Label} (hturns : InFront stream turns)
    {labels : List (SessionLabel Ω)} (hsofar : turnsOf labels <+: turns) :
    ∃ rest, Framing.Frames tryParseFrame stream (framesOf labels) rest := by
  obtain ⟨rest, hframes⟩ := framesAt_inFront hturns
  have hfront : framesAt (turnsOf labels) <+: framesAt turns := hsofar.filterMap _
  obtain ⟨more, hmore⟩ := hfront
  rw [framesOf_eq]
  rw [← hmore] at hframes
  exact hframes.front

/-- The replies the reader has begun to write. -/
def repliesOf (labels : List (SessionLabel Ω)) : List (UInt8 × List UInt8) :=
  labels.filterMap fun
    | .stream l => begins .reader l
    | _ => none

/-- No task writes while a frame of the other is partly on the wire. -/
def Session.Alternates (s : Session α Ω) : SessionLabel Ω → Prop
  | .stream l => WsWire.Alternates s.stream l
  | _ => True

/-- What a task has begun to write: the messages taken from `ws_out`, and the replies. -/
def begunBy (s : Session α Ω) (labels : List (SessionLabel Ω)) : Task → List (UInt8 × List UInt8)
  | .writer => (s.sys.out.take s.taken).map fun msg => (opcodeText, RustStd.asBytes msg)
  | .reader => repliesOf labels

structure Relayed (serde : SerdeJson) (labels : List (SessionLabel Ω)) (s : Session α Ω) : Prop where
  conserved : Conserved s
  tagged : s.stream.Tagged
  begun : ∀ task, s.stream.begun task = (begunBy s labels task).map bytesOf
  taken : s.taken ≤ s.sys.out.length
  /-- what was sent is what the process has sent, in its order -/
  out : s.sys.out = messagesOf serde s.sys.conn.log
  /-- the reader sends all the texts it parses, unless `handle_websocket` is gone -/
  accepted : s.accepted <+: (framesOf labels).flatMap textsOf
  relaying : s.relaying = true → s.accepted = (framesOf labels).flatMap textsOf

variable {serde : SerdeJson} {s s' : Session α Ω} {labels : List (SessionLabel Ω)}

theorem relayed_init : Relayed serde ([] : List (SessionLabel Ω)) (Session.init : Session α Ω) where
  conserved := conserved_init
  tagged := by intro task w hw; cases task <;> cases hw
  begun := by intro task; cases task <;> rfl
  taken := Nat.le_refl _
  out := rfl
  accepted := List.prefix_rfl
  relaying _ := rfl

/-! ### Turns at the stream -/

theorem framesOf_concat (labels : List (SessionLabel Ω)) (l : SessionLabel Ω) :
    framesOf (labels ++ [l]) = framesOf labels ++ framesOf [l] := List.filterMap_append

theorem repliesOf_concat (labels : List (SessionLabel Ω)) (l : SessionLabel Ω) :
    repliesOf (labels ++ [l]) = repliesOf labels ++ repliesOf [l] := List.filterMap_append

theorem repliesOf_stream (l : WsWire.Label) :
    repliesOf [(.stream l : SessionLabel Ω)] = (begins .reader l).toList := by
  unfold repliesOf
  cases h : begins .reader l with
  | none => exact List.filterMap_cons_none h
  | some frame => exact List.filterMap_cons_some h

/-- A frame with a text is not answered. -/
theorem replyFrame_text {f : WsFrame} (h : textsOf f ≠ []) : replyFrame f = none := by
  unfold replyFrame
  rw [if_pos]
  by_contra hnot
  obtain ⟨htext, -⟩ := not_or.mp hnot
  refine h ?_
  unfold textsOf onFrame
  rw [if_neg htext]
  split
  · rfl
  · split
    · rfl
    · split
      · rfl
      · split <;> rfl

/-- A turn at the stream that is not the writer's wait for a message. -/
theorem relayed_stream (hr : Relayed serde labels s) {l turn : WsWire.Label} {stream : Wire}
    (hstep : WsWire.step s.stream turn = some stream) (hmessage : begins .writer turn = none)
    (hreader : begins .reader turn = begins .reader l) {texts : List String} {wsMsg : List String}
    (hconserved : Conserved { s with stream, wsMsg, accepted := s.accepted ++ texts })
    (htexts : s.accepted ++ texts <+: (framesOf (labels ++ [.stream l])).flatMap textsOf)
    (hall : s.relaying = true → s.accepted ++ texts = (framesOf (labels ++ [.stream l])).flatMap textsOf) :
    Relayed serde (labels ++ [.stream l]) { s with stream, wsMsg, accepted := s.accepted ++ texts } := by
  obtain ⟨htagged, hbegun⟩ := begun_step hr.tagged hstep
  refine ⟨hconserved, htagged, ?_, hr.taken, hr.out, htexts, hall⟩
  intro task
  show stream.begun task = _
  rw [hbegun, hr.begun task]
  cases task with
  | writer =>
      rw [hmessage]
      exact List.append_nil _
  | reader =>
      show (repliesOf labels).map bytesOf ++ _ = (repliesOf (labels ++ [.stream l])).map bytesOf
      rw [repliesOf_concat, repliesOf_stream, List.map_append, hreader]

theorem relayed_recv (hr : Relayed serde labels s) {msg : String} {stream : Wire}
    (hmsg : s.sys.out[s.taken]? = some msg) (hstep : WsWire.step s.stream (.message msg) = some stream)
    (hconserved : Conserved { s with stream, taken := s.taken + 1 }) :
    Relayed serde (labels ++ [.recv]) { s with stream, taken := s.taken + 1 } := by
  obtain ⟨htagged, hbegun⟩ := begun_step hr.tagged hstep
  obtain ⟨hlt, hget⟩ := List.getElem?_eq_some_iff.mp hmsg
  have hnothing : framesOf (labels ++ [.recv]) = framesOf labels := by
    rw [framesOf_concat]
    exact List.append_nil _
  refine ⟨hconserved, htagged, ?_, hlt, hr.out, ?_, ?_⟩
  · intro task
    show stream.begun task = _
    rw [hbegun, hr.begun task]
    cases task with
    | writer =>
        show ((s.sys.out.take s.taken).map _).map bytesOf ++ [bytesOf (opcodeText, RustStd.asBytes msg)]
          = ((s.sys.out.take (s.taken + 1)).map _).map bytesOf
        rw [List.take_add_one, hmsg, List.map_append, List.map_append]
        rfl
    | reader =>
        show (repliesOf labels).map bytesOf ++ [] = (repliesOf (labels ++ [.recv])).map bytesOf
        rw [repliesOf_concat, List.append_nil]
        exact congrArg _ (List.append_nil _).symm
  · rw [hnothing]
    exact hr.accepted
  · rw [hnothing]
    exact hr.relaying

theorem relayed_onStream (hr : Relayed serde labels s) {l : WsWire.Label} (h : s.onStream l = some s')
    (hconserved : Conserved s') : Relayed serde (labels ++ [.stream l]) s' := by
  -- a turn that parses nothing, and where the reader sends nothing
  have hquiet : ∀ {turn : WsWire.Label} {stream : Wire}, WsWire.step s.stream turn = some stream →
      begins .writer turn = none → begins .reader turn = begins .reader l →
      s' = { s with stream } → framesOf [(.stream l : SessionLabel Ω)] = [] →
      Relayed serde (labels ++ [.stream l]) s' := by
    rintro turn stream hstep hmessage hreader rfl hnothing
    have hframes : framesOf (labels ++ [.stream l]) = framesOf labels := by
      rw [framesOf_concat, hnothing, List.append_nil]
    have hnone : s.accepted = s.accepted ++ [] := (List.append_nil _).symm
    have hsame : ({ s with stream } : Session α Ω) = { s with stream, accepted := s.accepted ++ [] } := by
      rw [← hnone]
    rw [hsame] at hconserved ⊢
    refine relayed_stream hr hstep hmessage hreader hconserved ?_ ?_
    · rw [hframes, ← hnone]
      exact hr.accepted
    · rw [hframes, ← hnone]
      exact hr.relaying
  cases l with
  | message text => cases h
  | frame f =>
      simp only [Session.onStream] at h
      have hframes : framesOf (labels ++ [(.stream (.frame f) : SessionLabel Ω)]) = framesOf labels ++ [f] :=
        framesOf_concat labels _
      by_cases hgone : textsOf f ≠ [] ∧ s.relaying = false
      · rw [if_pos hgone] at h
        obtain ⟨stream, hstep, rfl⟩ := Option.map_eq_some_iff.mp h
        have hreader : begins .reader .hangup = begins .reader (.frame f) := (replyFrame_text hgone.1).symm
        have hnone : s.accepted = s.accepted ++ [] := (List.append_nil _).symm
        have hsame : ({ s with stream } : Session α Ω) = { s with stream, accepted := s.accepted ++ [] } := by
          rw [← hnone]
        rw [hsame] at hconserved ⊢
        refine relayed_stream hr hstep rfl hreader hconserved ?_ ?_
        · rw [hframes, ← hnone, List.flatMap_append]
          exact hr.accepted.trans (List.prefix_append _ _)
        · intro hrelaying
          rw [hgone.2] at hrelaying
          cases hrelaying
      · rw [if_neg hgone] at h
        obtain ⟨stream, hstep, rfl⟩ := Option.map_eq_some_iff.mp h
        refine relayed_stream hr hstep rfl rfl hconserved ?_ ?_
        · rw [hframes, List.flatMap_append, List.flatMap_singleton]
          by_cases hnone : textsOf f = []
          · rw [hnone, List.append_nil, List.append_nil]
            exact hr.accepted
          · rw [hr.relaying (by simpa [hnone] using hgone)]
        · intro hrelaying
          rw [hframes, List.flatMap_append, hr.relaying hrelaying]
          rw [List.flatMap_singleton]
  | put task n =>
      obtain ⟨stream, hstep, rfl⟩ := Option.map_eq_some_iff.mp h
      exact hquiet hstep rfl rfl rfl rfl
  | _ =>
      obtain ⟨stream, hstep, rfl⟩ := Option.map_eq_some_iff.mp h
      exact hquiet hstep rfl rfl rfl rfl

/-! ### Turns that are not at the stream -/

variable [EmptyCollection α] {router : ChannelRouter α Ω}

/-- A turn of the process or of what it runs with, seen from the stream. -/
structure OffStream (serde : SerdeJson) (router : ChannelRouter α Ω) (s s' : Session α Ω) : Prop where
  sys : ∃ l, s.sys.step serde router l = some s'.sys
  stream : s'.stream = s.stream
  taken : s'.taken = s.taken
  accepted : s'.accepted = s.accepted
  relaying : s'.relaying = true → s.relaying = true

theorem cast_offStream {sender : Sender} {text : String} (wsMsg : List String)
    (h : { s with wsMsg }.cast serde router sender text = some s') : OffStream serde router s s' := by
  obtain ⟨sys, hsys, rfl⟩ := Option.map_eq_some_iff.mp h
  exact ⟨⟨_, hsys⟩, rfl, rfl, rfl, id⟩

theorem kill_offStream (wsMsg : List String) (h : { s with wsMsg }.kill serde router = some s') :
    OffStream serde router s s' := by
  obtain ⟨sys, hsys, rfl⟩ := Option.map_eq_some_iff.mp h
  exact ⟨⟨_, hsys⟩, rfl, rfl, rfl, nofun⟩

theorem relay_offStream (h : s.relay serde router = some s') : OffStream serde router s s' := by
  unfold Session.relay at h
  split at h
  · split at h
    · split at h
      · rename_i hcast
        cases h
        exact cast_offStream _ hcast
      · exact kill_offStream _ h
    · split at h
      · exact kill_offStream s.wsMsg h
      · cases h
  · cases h

theorem process_offStream {l : SysLabel Ω} (h : s.process serde router l = some s') :
    OffStream serde router s s' := by
  cases l with
  | receive text => cases h
  | kill => cases h
  | cast =>
      simp only [Session.process] at h
      split at h
      · obtain ⟨sys, hsys, rfl⟩ := Option.map_eq_some_iff.mp h
        exact ⟨⟨_, hsys⟩, rfl, rfl, rfl, id⟩
      · cases h
  | _ =>
      simp only [Session.process] at h
      obtain ⟨sys, hsys, rfl⟩ := Option.map_eq_some_iff.mp h
      exact ⟨⟨_, hsys⟩, rfl, rfl, rfl, id⟩

/-- The messages taken stay those that were taken, whatever is sent behind them. -/
theorem relayed_offStream (hr : Relayed serde labels s) {l : SessionLabel Ω}
    (hconserved : Conserved s') (hoff : OffStream serde router s s')
    (hframes : framesOf (labels ++ [l]) = framesOf labels)
    (hreplies : repliesOf (labels ++ [l]) = repliesOf labels) : Relayed serde (labels ++ [l]) s' := by
  obtain ⟨turn, hsys⟩ := hoff.sys
  obtain ⟨events, hlog, hout⟩ := out_step hr.conserved.wired hsys
  have htaken := hr.taken
  refine ⟨hconserved, ?_, ?_, ?_, ?_, ?_, ?_⟩
  · rw [hoff.stream]
    exact hr.tagged
  · intro task
    have hbegun := hr.begun task
    rw [hoff.stream, hbegun]
    cases task with
    | writer =>
        show _ = ((s'.sys.out.take s'.taken).map _).map bytesOf
        rw [hoff.taken, hout, List.take_append_of_le_length htaken]
        rfl
    | reader =>
        show _ = (repliesOf (labels ++ [l])).map bytesOf
        rw [hreplies]
        rfl
  · rw [hoff.taken, hout, List.length_append]
    omega
  · rw [hout, hlog, hr.out]
    exact List.filterMap_append.symm
  · rw [hframes, hoff.accepted]
    exact hr.accepted
  · intro hrelaying
    rw [hframes, hoff.accepted]
    exact hr.relaying (hoff.relaying hrelaying)

/-! ### A run -/

theorem relayed_step (hr : Relayed serde labels s) {l : SessionLabel Ω}
    (h : s.step serde router l = some s') : Relayed serde (labels ++ [l]) s' := by
  have hconserved := conserved_step hr.conserved h
  have hnothing : framesOf [l] = [] → framesOf (labels ++ [l]) = framesOf labels := by
    intro hnil
    rw [framesOf_concat, hnil, List.append_nil]
  have hunanswered : repliesOf [l] = [] → repliesOf (labels ++ [l]) = repliesOf labels := by
    intro hnil
    rw [repliesOf_concat, hnil, List.append_nil]
  cases l with
  | stream l => exact relayed_onStream hr h hconserved
  | recv =>
      simp only [Session.step, Session.recv] at h
      split at h
      · rename_i msg hmsg
        obtain ⟨stream, hturn, rfl⟩ := Option.map_eq_some_iff.mp h
        exact relayed_recv hr hmsg hturn hconserved
      · cases h
  | relay =>
      exact relayed_offStream hr hconserved (relay_offStream h) (hnothing rfl) (hunanswered rfl)
  | addr text =>
      exact relayed_offStream hr hconserved (cast_offStream s.wsMsg h) (hnothing rfl) (hunanswered rfl)
  | process l =>
      exact relayed_offStream hr hconserved (process_offStream h) (hnothing rfl) (hunanswered rfl)

theorem relayed_run (h : (sessionSystem serde router).exec Session.init labels = some s) :
    Relayed serde labels s :=
  Lts.exec_history (M := sessionSystem serde router) (R := Relayed serde) relayed_init
    (fun _ _ _ _ hr hstep => relayed_step hr hstep) h

/-- The wire of a session is whole if its turns at the stream alternate. -/
theorem session_whole (halt : (sessionSystem serde router).Along Session.Alternates Session.init labels)
    (h : (sessionSystem serde router).exec Session.init labels = some s) : Whole s.stream := by
  refine Lts.exec_invariant_along (M := sessionSystem serde router) (I := fun s => Whole s.stream)
    (P := Session.Alternates) whole_init ?_ halt h
  intro s l s' hw halt hstep
  cases l with
  | stream l =>
      have hquiet : ∀ turn stream, WsWire.step s.stream turn = some stream → WsWire.Alternates s.stream turn →
          Whole stream := fun turn stream hturn halt => whole_step hw halt hturn
      have hstep : s.onStream l = some s' := hstep
      cases l with
      | message text => cases hstep
      | frame f =>
          simp only [Session.onStream] at hstep
          split at hstep
          · obtain ⟨stream, hturn, rfl⟩ := Option.map_eq_some_iff.mp hstep
            exact hquiet _ _ hturn trivial
          · obtain ⟨stream, hturn, rfl⟩ := Option.map_eq_some_iff.mp hstep
            exact hquiet _ _ hturn trivial
      | _ =>
          obtain ⟨stream, hturn, rfl⟩ := Option.map_eq_some_iff.mp hstep
          exact hquiet _ _ hturn halt
  | recv =>
      simp only [sessionSystem, Session.step, Session.recv] at hstep
      split at hstep
      · obtain ⟨stream, hturn, rfl⟩ := Option.map_eq_some_iff.mp hstep
        exact whole_step hw (l := .message _) trivial hturn
      · cases hstep
  | relay =>
      have hoff : OffStream serde router s s' := relay_offStream hstep
      rw [hoff.stream]
      exact hw
  | addr text =>
      rw [(cast_offStream s.wsMsg hstep).stream]
      exact hw
  | process l =>
      rw [(process_offStream hstep).stream]
      exact hw

omit [EmptyCollection α] in
/-- A reply to a frame that was parsed is small. -/
theorem replyFrame_serializable {buf : List UInt8} {f : WsFrame} {n : Nat}
    (hparse : tryParseFrame buf = .ok (some (f, n))) {frame : UInt8 × List UInt8}
    (h : replyFrame f = some frame) : Serializable frame := by
  unfold replyFrame at h
  split at h
  · cases h
  · split at h
    · rename_i hping
      cases h
      have hsmall := control_payload hparse (by rw [hping]; decide)
      exact ⟨(by decide : opcodePong < 16), by dsimp only; omega⟩
    · split at h
      · rename_i hclose
        cases h
        have hsmall := closePayload_length (control_payload hparse (by rw [hclose]; decide))
        exact ⟨(by decide : opcodeClose < 16), by dsimp only; omega⟩
      · cases h
        exact ⟨by decide, by decide⟩

theorem repliesOf_serializable {stream rest : List UInt8}
    (hframes : Framing.Frames tryParseFrame stream (framesOf labels) rest) :
    ∀ frame ∈ repliesOf labels, Serializable frame := by
  intro frame hframe
  obtain ⟨l, hl, hreply⟩ := List.mem_filterMap.mp hframe
  cases l with
  | stream turn =>
      have hbegins : begins .reader turn = some frame := hreply
      cases turn with
      | frame f =>
          obtain ⟨buf, n, hparse⟩ := hframes.mem (List.mem_filterMap.mpr ⟨_, hl, rfl⟩)
          exact replyFrame_serializable hparse hbegins
      | invalid e =>
          cases hbegins
          exact ⟨by decide, by decide +kernel⟩
      | tooBig =>
          cases hbegins
          exact ⟨by decide, by decide +kernel⟩
      | _ => cases hbegins
  | _ => cases hreply

/--
**A WebSocket connection carries both ways in order.**  For every byte stream that
`ws_streaming_loop` reads, every router and every schedule of the reader, the writer,
`handle_websocket`, the process and all it runs with, in which no task writes while a frame of
the other is partly on the wire.  That the frames stand at the front of the stream is what
`frames_of_turns` shows of a reader that has come any part of its way.

What the process has handled of the client is at the front of the texts of the frames that
stand at the front of the stream, and while `handle_websocket` runs the rest of them are on
their way, in order.  And the client reads whole frames and perhaps the beginning of one: its
text frames are the messages of the process's log in their order, as far as the writer has
taken them, and its other frames are the replies to what it sent, in theirs; of each task's
at most the one it is writing is missing.
-/
theorem session_in_order (serde : SerdeJson) (router : ChannelRouter α Ω) {stream rest : List UInt8}
    {labels : List (SessionLabel Ω)} {s : Session α Ω}
    (hframes : Framing.Frames tryParseFrame stream (framesOf labels) rest)
    (halt : (sessionSystem serde router).Along Session.Alternates Session.init labels)
    (h : (sessionSystem serde router).exec Session.init labels = some s)
    (hsize : ∀ msg ∈ messagesOf serde s.sys.conn.log, (RustStd.asBytes msg).length < 2 ^ 63) :
    (s.handled <+: (framesOf labels).flatMap textsOf ∧
      (s.relaying = true → s.handled ++ s.onTheWay = (framesOf labels).flatMap textsOf)) ∧
    ∃ frames part, readFrames s.stream.wire.length s.stream.wire = (frames, part) ∧
      Received s.stream .writer (frames.filter (fromTask .writer))
        (((messagesOf serde s.sys.conn.log).take s.taken).map fun msg => (opcodeText, RustStd.asBytes msg)) ∧
      Received s.stream .reader (frames.filter (fromTask .reader)) (repliesOf labels) ∧
      ((∀ task, (s.stream.phase task).unfinished = none) → part = []) := by
  have hr := relayed_run h
  have hout := hr.out
  refine ⟨⟨( handled_prefix h).trans hr.accepted, ?_⟩, ?_⟩
  · intro hrelaying
    rw [← hr.relaying hrelaying]
    exact hr.conserved.flow hrelaying
  have hserial : ∀ task, ∀ frame ∈ begunBy s labels task, Serializable frame := by
    intro task frame hframe
    cases task with
    | writer =>
        obtain ⟨msg, hmsg, rfl⟩ := List.mem_map.mp hframe
        rw [hout] at hmsg
        exact ⟨(by decide : opcodeText < 16), hsize msg (List.mem_of_mem_take hmsg)⟩
    | reader => exact repliesOf_serializable hframes frame hframe
  obtain ⟨frames, part, hread, hreceived, hpart⟩ :=
    received_of_whole hserial hr.begun (session_whole halt h)
  refine ⟨frames, part, hread, ?_, hreceived .reader, hpart⟩
  rw [← hout]
  exact hreceived .writer

/-- A client joins and then sends a PING; each of its frames has a key of zeros. -/
def joinPing : List UInt8 :=
  [0x81, 0x80 + 62, 0, 0, 0, 0] ++ RustStd.asBytes joinText ++ [0x89, 0x80, 0, 0, 0, 0]

/-- The reply to the join is on the wire in two pieces before the PONG. -/
def joinPingTurns : List (SessionLabel Unit) :=
  [textIn joinText, .relay, .process .cast, .process (.run ()), .process (.run ()), .process (.run ()),
    .recv, .stream (.put .writer 50), .stream (.frame { opcode := opcodePing, payload := [] }),
    .stream (.put .writer 42), .stream (.put .reader 2)]

instance (s : Wire) (task : Task) : Decidable (s.Partly task) :=
  inferInstanceAs (Decidable ((s.phase task).part ≠ []))

/-- The turns of a run that may not cut into a frame, tested. -/
def alternates (s : Session (List Nat) Unit) : SessionLabel Unit → Bool
  | .stream (.put task _) => !decide (s.stream.Partly task.other)
  | _ => true

theorem session_in_order_join :
    ∃ s frames, (sessionSystem roomSerde echoRouter).exec Session.init joinPingTurns = some s ∧
      readFrames s.stream.wire.length s.stream.wire = (frames, []) ∧
      frames.filter (fromTask .writer) = [sent (opcodeText, RustStd.asBytes (replyText "null" "1"))] ∧
      frames.filter (fromTask .reader) = [sent (opcodePong, [])] := by
  have hjoin : tryParseFrame joinPing
      = .ok (some ({ opcode := opcodeText, payload := RustStd.asBytes joinText }, 68)) := by decide +kernel
  have hping : tryParseFrame (joinPing.drop 68) = .ok (some ({ opcode := opcodePing, payload := [] }, 6)) := by
    decide +kernel
  have hframes : Framing.Frames tryParseFrame joinPing (framesOf joinPingTurns) ((joinPing.drop 68).drop 6) :=
    .frame hjoin (.frame hping (.done _))
  have halt : (sessionSystem roomSerde echoRouter).Along Session.Alternates Session.init joinPingTurns := by
    have htest : ∀ s l, alternates s l = true → s.Alternates l := by
      intro s l hl
      cases l with
      | stream turn =>
          cases turn with
          | put task n => exact of_decide_eq_false (by simpa [alternates] using hl)
          | _ => trivial
      | _ => trivial
    exact Lts.along_of_check htest (by decide +kernel)
  have hrun : ((sessionSystem roomSerde echoRouter).exec Session.init joinPingTurns).map (fun s =>
      (s.stream.writer, s.stream.reader, s.taken, s.sys.out))
      = some (.idle, .idle, 1, [replyText "null" "1"]) := by
    decide +kernel
  obtain ⟨s, hs, hfacts⟩ := Option.map_eq_some_iff.mp hrun
  simp only [Prod.mk.injEq] at hfacts
  obtain ⟨hwriter, hreader, htaken, hout⟩ := hfacts
  have hlog : messagesOf roomSerde s.sys.conn.log = [replyText "null" "1"] := by
    rw [← (relayed_run hs).out, hout]
  obtain ⟨-, frames, part, hread, hmessages, hreplies, hwhole⟩ :=
    session_in_order roomSerde echoRouter hframes halt hs (by
      rw [hlog]
      intro msg hmsg
      rw [List.mem_singleton.mp hmsg]
      decide +kernel)
  have hnone : ∀ task, (s.stream.phase task).unfinished = none := by
    intro task
    cases task with
    | writer => exact congrArg Phase.unfinished hwriter
    | reader => exact congrArg Phase.unfinished hreader
  unfold Received at hmessages hreplies
  rw [hnone .writer, hlog, htaken] at hmessages
  rw [hnone .reader] at hreplies
  rw [hwhole hnone] at hread
  exact ⟨s, frames, hs, hread, hmessages, hreplies⟩

end Mahalo.WsConnection
