/-
What a browser gets of an SSE stream.

The loop takes up one piece after the other, an event that was sent or the end of the
keep-alive interval, and writes it.  The invariant names these pieces: without the
intervals they are the beginning of what was sent, the rest is in the channel, and the
bytes of the pieces are on the wire, or what is left of the last is in the hands of
`write_all`.

An event's text ends with an empty line, so nothing of an event is set up between two
pieces, and a comment there leaves no trace in what a browser dispatches.
-/
import Mathlib.Data.List.ReduceOption
import Mahalo.Endpoint.SseStreaming
import Mahalo.Endpoint.Server
import Mahalo.Proofs.Sse

namespace Mahalo.SseStreaming

open RustStd (asBytes encodeChar)
open Sse EventStream

variable {head : List UInt8} {keepAlive : Option KeepAlive}

/-! ### What one turn can do -/

inductive Turn (s : Stream) : Label → Stream → Prop
  | sent (event : Event) : s.receiver = true →
      Turn s (.send event) { s with queue := SseSender.send s.queue event, sent := s.sent ++ [event] }
  | refused (event : Event) : s.receiver = false → Turn s (.send event) s
  | dropped : Turn s .dropSender { s with sender := false }
  | received (data : String) (queue : List String) : s.phase = .waiting → s.queue = data :: queue →
      Turn s .recv { s with queue, phase := .writing (asBytes data) }
  | closed : s.phase = .waiting → s.queue = [] → s.sender = false → Turn s .recv { s with phase := .closed }
  | elapsed (ka : KeepAlive) : s.phase = .waiting → s.keepAlive = some ka →
      Turn s .elapsed { s with phase := .writing ka.commentBytes }
  | wrote (buf : List UInt8) : s.phase = .writing buf →
      Turn s .wrote { s with phase := .waiting, wire := s.wire ++ buf, writes := s.writes ++ [(buf, true)] }
  | failed (buf : List UInt8) (taken : Nat) : s.phase = .writing buf →
      Turn s (.failed taken)
        { s with
          queue := []
          phase := .broken
          wire := s.wire ++ buf.take taken
          writes := s.writes ++ [(buf, false)] }

theorem turn_of_step {s s' : Stream} {l : Label} (h : step s l = some s') : Turn s l s' := by
  unfold step at h
  cases l with
  | send event =>
      simp only [Option.ite_none_right_eq_some, Option.some.injEq] at h
      obtain ⟨-, rfl⟩ := h
      unfold Stream.send
      split_ifs with hreceiver
      · exact .sent event hreceiver
      · exact .refused event (Bool.eq_false_iff.mpr hreceiver)
  | dropSender =>
      simp only [Option.ite_none_right_eq_some, Option.some.injEq] at h
      obtain ⟨-, rfl⟩ := h
      exact .dropped
  | recv =>
      dsimp only at h
      split at h
      · rename_i hwaiting
        unfold Stream.recv at h
        split at h
        · rename_i data queue hqueue
          cases h
          exact .received data queue hwaiting hqueue
        · rename_i hqueue
          simp only [Option.ite_none_left_eq_some, Option.some.injEq] at h
          obtain ⟨hsender, rfl⟩ := h
          exact .closed hwaiting hqueue (Bool.eq_false_iff.mpr hsender)
      · cases h
  | elapsed =>
      dsimp only at h
      split at h
      · rename_i ka hwaiting hka
        cases h
        exact .elapsed ka hwaiting hka
      · cases h
  | wrote =>
      dsimp only at h
      split at h
      · rename_i buf hwriting
        cases h
        exact .wrote buf hwriting
      · cases h
  | failed taken =>
      dsimp only at h
      split at h
      · rename_i buf hwriting
        cases h
        exact .failed buf taken hwriting
      · cases h

theorem Turn.keepAlive_eq {s s' : Stream} {l : Label} (h : Turn s l s') : s'.keepAlive = s.keepAlive := by
  cases h <;> rfl

@[simp] theorem receiver_eq (s : Stream) : s.receiver = true ↔ s.phase ≠ .closed ∧ s.phase ≠ .broken := by
  unfold Stream.receiver
  cases s.phase <;> simp

/-! ### From the handler to the loop -/

section

variable {K : Type} [DecidableEq K] {β : K → Type} {conn : Conn (Assigns (Key.Value β))}

theorem takeStream_eq {stream : SseStream} (h : conn.getAssign Key.sseStream = some stream) :
    ∃ assigns, takeStream conn = some (stream, conn.getAssign .sseKeepAlive, { conn with assigns }) ∧
      ∀ k : K, ({ conn with assigns } : Conn (Assigns (Key.Value β))).getAssign (.app k) = conn.getAssign (.app k) := by
  refine ⟨(conn.assigns.map (·.erase .sseStream)).map (·.erase .sseKeepAlive), ?_, ?_⟩
  · unfold takeStream
    rw [Conn.takeAssign_eq, h]
    dsimp only
    rw [Conn.takeAssign_eq, Conn.getAssign_erase_ne (by simp)]
    rfl
  · intro k
    exact (Conn.getAssign_erase_ne (by simp) { conn with assigns := conn.assigns.map (·.erase .sseStream) }).trans
      (Conn.getAssign_erase_ne (by simp) conn)

/-- What `execute_and_respond` finds is what `sse_response` left, with an earlier keep-alive if there is no new one. -/
theorem takeStream_sseResponse (options : SseOptions) (rx : Nat) :
    ∃ conn', takeStream (sseResponse conn options rx)
        = some (⟨rx⟩, options.keepAlive.or (conn.getAssign .sseKeepAlive), conn') ∧
      conn'.status = statusOk ∧
      conn'.respHeaders.get "content-type" = some (asBytes "text/event-stream") ∧
      conn'.respHeaders.get "cache-control" = some (asBytes "no-cache") ∧
      ∀ k : K, conn'.getAssign (.app k) = conn.getAssign (.app k) := by
  have hstream : (sseResponse conn options rx).getAssign .sseStream = some ⟨rx⟩ := by
    unfold sseResponse
    cases options.keepAlive with
    | none => exact Conn.getAssign_assign ..
    | some ka => exact (Conn.getAssign_assign_ne (by simp) _ _).trans (Conn.getAssign_assign ..)
  have hkeepAlive : (sseResponse conn options rx).getAssign .sseKeepAlive
      = options.keepAlive.or (conn.getAssign .sseKeepAlive) := by
    unfold sseResponse
    cases options.keepAlive with
    | none => exact Conn.getAssign_assign_ne (by simp) _ _
    | some ka => exact Conn.getAssign_assign ..
  have happ : ∀ k : K, (sseResponse conn options rx).getAssign (.app k) = conn.getAssign (.app k) := by
    intro k
    unfold sseResponse
    cases options.keepAlive with
    | none => exact Conn.getAssign_assign_ne (by simp) _ _
    | some ka =>
        exact (Conn.getAssign_assign_ne (by simp) _ _).trans (Conn.getAssign_assign_ne (by simp) _ _)
  have hresponse : (sseResponse conn options rx).status = statusOk ∧
      (sseResponse conn options rx).respHeaders = (conn.respHeaders.insert "content-type"
        (asBytes "text/event-stream")).insert "cache-control" (asBytes "no-cache") := by
    unfold sseResponse
    cases options.keepAlive <;> exact ⟨rfl, rfl⟩
  obtain ⟨assigns, htake, hrest⟩ := takeStream_eq hstream
  rw [hkeepAlive] at htake
  refine ⟨_, htake, hresponse.1, ?_, ?_, fun k => (hrest k).trans (happ k)⟩
  · dsimp only
    rw [hresponse.2, HeaderMap.get_insert, HeaderMap.get_insert]
    rfl
  · dsimp only
    rw [hresponse.2, HeaderMap.get_insert]
    rfl

end

/-! ### The pieces -/

/-- What the loop writes for an event, or for the end of an interval. -/
def chunk (keepAlive : Option KeepAlive) : Option Event → List UInt8
  | some event => asBytes event.serialize
  | none => (keepAlive.map (·.commentBytes)).getD []

/-- What is left to write. -/
def Phase.pending : Phase → List UInt8
  | .writing buf => buf
  | .waiting | .closed | .broken => []

/-- How far the loop is: the pieces it has taken up, and the events that it has not. -/
structure Progress (head : List UInt8) (s : Stream) (pieces : List (Option Event)) (rest : List Event) :
    Prop where
  sent : s.sent = pieces.reduceOption ++ rest
  comments : s.keepAlive = none → none ∉ pieces
  queue : s.receiver = true → s.queue = rest.map (·.serialize)
  begun : s.wire <+: head ++ pieces.flatMap (chunk s.keepAlive)
  taken : s.phase ≠ .broken → s.wire ++ s.phase.pending = head ++ pieces.flatMap (chunk s.keepAlive)
  ended : s.phase = .closed → rest = []

theorem progress_init : Progress head (system head keepAlive).init [] [] where
  sent := rfl
  comments _ := List.not_mem_nil
  queue _ := rfl
  begun := List.nil_prefix
  taken _ := (List.append_nil head).symm
  ended _ := rfl

/-- A piece is taken up. -/
theorem Progress.take {s : Stream} {pieces : List (Option Event)} {rest : List Event}
    (hp : Progress head s pieces rest) (hwaiting : s.phase = .waiting) (piece : Option Event) :
    s.wire ++ chunk s.keepAlive piece = head ++ (pieces ++ [piece]).flatMap (chunk s.keepAlive) := by
  have htaken := hp.taken (by simp [hwaiting])
  rw [hwaiting, Phase.pending, List.append_nil] at htaken
  rw [htaken, List.flatMap_append, List.flatMap_singleton, List.append_assoc]

/-- **One turn** takes up a piece at most. -/
theorem progress_turn {s s' : Stream} {l : Label} {pieces : List (Option Event)} {rest : List Event}
    (hp : Progress head s pieces rest) (h : Turn s l s') : ∃ pieces' rest', Progress head s' pieces' rest' := by
  cases h with
  | sent event hreceiver =>
      refine ⟨pieces, rest ++ [event], ?_, hp.comments, ?_, hp.begun, hp.taken, ?_⟩
      · rw [← List.append_assoc, ← hp.sent]
      · intro _
        rw [List.map_append, ← hp.queue hreceiver]
        rfl
      · intro hclosed
        exact absurd hclosed ((receiver_eq s).mp hreceiver).1
  | refused event hreceiver => exact ⟨pieces, rest, hp⟩
  | dropped => exact ⟨pieces, rest, hp.sent, hp.comments, hp.queue, hp.begun, hp.taken, hp.ended⟩
  | received data queue hwaiting hdata =>
      have hqueue := hp.queue (by simp [hwaiting])
      rw [hdata] at hqueue
      -- what is received is the first event that was not taken up
      cases rest with
      | nil => cases hqueue
      | cons event rest =>
          obtain ⟨rfl, rfl⟩ := List.cons.inj hqueue
          have htake := hp.take hwaiting (some event)
          refine ⟨pieces ++ [some event], rest, ?_, ?_, fun _ => rfl, ?_, fun _ => htake, fun hclosed => by cases hclosed⟩
          · rw [hp.sent, List.reduceOption_append, List.append_assoc]
            rfl
          · intro hnone
            simpa using hp.comments hnone
          · exact ⟨_, htake⟩
  | closed hwaiting hempty hsender =>
      have hrest := hp.queue (by simp [hwaiting])
      rw [hempty] at hrest
      have htaken := hp.taken (by simp [hwaiting])
      rw [hwaiting] at htaken
      refine ⟨pieces, rest, hp.sent, hp.comments, ?_, hp.begun, fun _ => htaken, ?_⟩
      · simp
      · intro _
        exact List.map_eq_nil_iff.mp hrest.symm
  | elapsed ka hwaiting hka =>
      have htake := hp.take hwaiting none
      have hchunk : chunk s.keepAlive none = ka.commentBytes := by
        rw [hka]
        rfl
      refine ⟨pieces ++ [none], rest, ?_, ?_, ?_, ⟨_, htake⟩, fun _ => hchunk ▸ htake,
        fun hclosed => by cases hclosed⟩
      · rw [hp.sent, List.reduceOption_append]
        exact congrArg (· ++ rest) (List.append_nil _).symm
      · intro hnone
        rw [hka] at hnone
        cases hnone
      · intro _
        exact hp.queue (by simp [hwaiting])
  | wrote buf hwriting =>
      have htaken := hp.taken (by simp [hwriting])
      rw [hwriting, Phase.pending] at htaken
      refine ⟨pieces, rest, hp.sent, hp.comments, ?_, htaken ▸ List.prefix_rfl, ?_,
        fun hclosed => by cases hclosed⟩
      · intro _
        exact hp.queue (by simp [hwriting])
      · intro _
        exact (List.append_nil _).trans htaken
  | failed buf taken hwriting =>
      have htaken := hp.taken (by simp [hwriting])
      rw [hwriting, Phase.pending] at htaken
      refine ⟨pieces, rest, hp.sent, hp.comments, ?_, ?_, ?_, fun hclosed => by cases hclosed⟩
      · simp
      · dsimp only
        rw [← htaken]
        exact (List.prefix_append_right_inj _).mpr (List.take_prefix ..)
      · intro hbroken
        exact absurd rfl hbroken

theorem progress_run {labels : List Label} {s : Stream}
    (h : (system head keepAlive).exec (system head keepAlive).init labels = some s) :
    s.keepAlive = keepAlive ∧ ∃ pieces rest, Progress head s pieces rest := by
  refine Lts.exec_invariant (M := system head keepAlive)
    (I := fun s => s.keepAlive = keepAlive ∧ ∃ pieces rest, Progress head s pieces rest) ?_ ?_ h
  · exact ⟨rfl, [], [], progress_init⟩
  · intro s l s' ⟨hka, pieces, rest, hp⟩ hs
    have hturn := turn_of_step hs
    exact ⟨hturn.keepAlive_eq.trans hka, progress_turn hp hturn⟩

/-- Once the sender is gone, the loop writes what is in the channel and returns. -/
theorem drains {s : Stream} (hsender : s.sender = false) : ∀ queue, s.phase = .waiting → s.queue = queue →
    ∃ turns t, (∀ l ∈ turns, l = .recv ∨ l = .wrote) ∧ (system head keepAlive).exec s turns = some t ∧
      t.phase = .closed ∧ t.sent = s.sent := by
  intro queue
  induction queue generalizing s with
  | nil =>
      intro hwaiting hqueue
      refine ⟨[.recv], { s with phase := .closed }, by simp, ?_, rfl, rfl⟩
      simp [Lts.exec_cons, system, step, Stream.recv, hwaiting, hqueue, hsender]
  | cons data queue ih =>
      intro hwaiting hqueue
      obtain ⟨turns, t, hturns, hrun, hclosed, hsent⟩ := ih (s := { s with
        queue
        phase := .waiting
        wire := s.wire ++ asBytes data
        writes := s.writes ++ [(asBytes data, true)] }) hsender rfl rfl
      refine ⟨.recv :: .wrote :: turns, t, by simpa using hturns, ?_, hclosed, hsent⟩
      rw [← hrun]
      simp [Lts.exec_cons, system, step, Stream.recv, hwaiting, hqueue]

/--
**What is sent is written once and in order.**  In every run, the events that `send`
accepted are those the loop has taken up, followed by those in the channel; what is on
the wire is the beginning of the response head and the chunks of what was taken up,
with nothing between them but keep-alive comments, and only if those are configured.
While the loop waits, all of that is on the wire; if it has returned because the sender
is gone, everything that was sent is.  And it does return then, if the writes succeed.
-/
theorem stream_in_order {labels : List Label} {s : Stream}
    (h : (system head keepAlive).exec (system head keepAlive).init labels = some s) :
    (∃ (pieces : List (Option Event)) (rest : List Event), s.sent = pieces.reduceOption ++ rest ∧ (keepAlive = none → none ∉ pieces) ∧
      s.wire <+: head ++ pieces.flatMap (chunk keepAlive) ∧
      (s.phase = .waiting → s.wire = head ++ pieces.flatMap (chunk keepAlive) ∧ s.queue = rest.map (·.serialize)) ∧
      (s.phase = .closed → s.wire = head ++ pieces.flatMap (chunk keepAlive) ∧ rest = [])) ∧
    (s.sender = false → s.phase = .waiting →
      ∃ turns t, (∀ l ∈ turns, l = .recv ∨ l = .wrote) ∧ (system head keepAlive).exec s turns = some t ∧
        t.phase = .closed ∧ t.sent = s.sent) := by
  obtain ⟨hka, pieces, rest, hp⟩ := progress_run h
  refine ⟨⟨pieces, rest, hp.sent, hka ▸ hp.comments, hka ▸ hp.begun, ?_, ?_⟩, fun hsender hwaiting =>
    drains hsender s.queue hwaiting rfl⟩
  · intro hwaiting
    have htaken := hp.taken (by simp [hwaiting])
    rw [hwaiting, Phase.pending, List.append_nil, hka] at htaken
    exact ⟨htaken, hp.queue (by simp [hwaiting])⟩
  · intro hclosed
    have htaken := hp.taken (by simp [hclosed])
    rw [hclosed, Phase.pending, List.append_nil, hka] at htaken
    exact ⟨htaken, hp.ended hclosed⟩

/-- A stream with a comment every fifteen seconds. -/
def pinging : Lts.System Stream Label := system (asBytes "\r\n") (some (KeepAlive.new ⟨15, 0⟩))

/-- Two events with a comment in front, between and behind them, and then the sender is dropped. -/
def twoEvents : List Label :=
  [.send (Event.default.withData "a"), .wrote, .elapsed, .wrote, .recv, .send ((Event.default.withData "b").withEvent "t"),
    .wrote, .elapsed, .wrote, .recv, .dropSender, .wrote, .elapsed, .wrote, .recv]

theorem twoEvents_run : ∃ s, pinging.exec pinging.init twoEvents = some s ∧ s.phase = .closed ∧
    s.sent = [Event.default.withData "a", (Event.default.withData "b").withEvent "t"] := by
  have hrun : (pinging.exec pinging.init twoEvents).map (fun s => (s.phase, s.sent))
      = some (.closed, [Event.default.withData "a", (Event.default.withData "b").withEvent "t"]) := by
    decide +kernel
  obtain ⟨s, hs, hend⟩ := Option.map_eq_some_iff.mp hrun
  exact ⟨s, hs, congrArg (·.1) hend, congrArg (·.2) hend⟩

theorem stream_in_order_two : ∃ (s : Stream) (pieces : List (Option Event)), pinging.exec pinging.init twoEvents = some s ∧
    pieces.reduceOption = [Event.default.withData "a", (Event.default.withData "b").withEvent "t"] ∧
      s.wire = asBytes "\r\n" ++ pieces.flatMap (chunk (some (KeepAlive.new ⟨15, 0⟩))) := by
  obtain ⟨s, hs, hclosed, hsent⟩ := twoEvents_run
  obtain ⟨⟨pieces, rest, hpieces, -, -, -, hend⟩, -⟩ := stream_in_order hs
  obtain ⟨hwire, rfl⟩ := hend hclosed
  exact ⟨s, pieces, hs, by rw [← hsent, hpieces, List.append_nil], hwire⟩

/-! ### What the browser dispatches -/

/-- The text of a chunk. -/
def chunkText (keepAlive : Option KeepAlive) : Option Event → Text
  | some event => event.serialize.toList
  | none => ((keepAlive.map fun ka => ": ".toList ++ ka.text.toList ++ "\n\n".toList)).getD []

theorem chunk_eq (piece : Option Event) : chunk keepAlive piece = (chunkText keepAlive piece).flatMap encodeChar := by
  cases piece with
  | some event => rfl
  | none =>
      cases keepAlive with
      | none => rfl
      | some ka =>
          show asBytes (": " ++ ka.text ++ "\n\n") = _
          unfold asBytes
          rw [String.toList_append, String.toList_append]
          rfl

theorem chunks_eq (pieces : List (Option Event)) : pieces.flatMap (chunk keepAlive)
    = asBytes (String.ofList (pieces.flatMap (chunkText keepAlive))) := by
  unfold asBytes
  rw [String.toList_ofList, List.flatMap_assoc]
  exact congrArg (pieces.flatMap ·) (funext chunk_eq)

/-- The events on a stream of their own. -/
def eventStream (sent : List Event) : List UInt8 := sent.flatMap fun event => asBytes event.serialize

theorem eventStream_eq (sent : List Event) :
    eventStream sent = asBytes (String.ofList (sent.flatMap (·.serialize.toList))) := by
  unfold eventStream asBytes
  rw [String.toList_ofList, List.flatMap_assoc]

/-- An event's text ends with an empty line. -/
theorem lines_serialize (event : Event) :
    (∃ text, event.serialize.toList = text ++ ['\n']) ∧ ∃ front, lines event.serialize.toList = front ++ [[]] := by
  rw [Event.serialize_toList]
  exact ⟨⟨_, rfl⟩, _, lines_pieces ..⟩

theorem lines_comment {ka : KeepAlive} (h : OneLine ka.text.toList) :
    ∃ line, line.head? = some ':' ∧ lines (chunkText (some ka) none) = [line, []] := by
  have htext : chunkText (some ka) none = [": ".toList ++ ka.text.toList].flatMap (· ++ ['\n']) ++ ['\n'] := by
    simp [chunkText]
  have hone : ∀ line ∈ [": ".toList ++ ka.text.toList], OneLine line := by
    rw [List.forall_mem_singleton]
    exact (oneLine_append (by decide) (by decide)).mpr h
  refine ⟨withoutCr (": ".toList ++ ka.text.toList), ?_, ?_⟩
  · rw [withoutCr_append (by decide)]
    rfl
  · rw [htext, lines_oneLines hone]
    rfl

/-- Each keep-alive comment is one line, and there is none unless it is configured. -/
def Comments (keepAlive : Option KeepAlive) (pieces : List (Option Event)) : Prop :=
  none ∈ pieces → ∃ ka, keepAlive = some ka ∧ OneLine ka.text.toList

/-- **Comments between events leave no trace.** -/
theorem interpret_pieces (pieces : List (Option Event)) (h : Comments keepAlive pieces) :
    ∀ b : Buffers, b.Clear →
      interpret b (pieces.flatMap fun piece => lines (chunkText keepAlive piece))
        = interpret b (pieces.reduceOption.flatMap fun event : Event => lines event.serialize.toList) := by
  induction pieces with
  | nil =>
      intro b _
      rfl
  | cons piece pieces ih =>
      intro b hb
      have hrest : Comments keepAlive pieces := fun hnone => h (List.mem_cons_of_mem _ hnone)
      cases piece with
      | none =>
          obtain ⟨ka, rfl, hone⟩ := h (List.mem_cons_self ..)
          obtain ⟨line, hline, hlines⟩ := lines_comment hone
          obtain ⟨hafter, hnothing⟩ := after_comment hb hline
          rw [List.flatMap_cons, hlines, interpret_append, hafter, hnothing, List.nil_append, ih hrest b hb,
            List.reduceOption_cons_of_none]
      | some event =>
          obtain ⟨front, hlines⟩ := (lines_serialize event).2
          rw [List.flatMap_cons, List.reduceOption_cons_of_some, List.flatMap_cons, interpret_append,
            interpret_append]
          refine congrArg _ (ih hrest _ ?_)
          show (b.after (lines event.serialize.toList)).Clear
          rw [hlines]
          exact clear_after_blank front b

theorem chunkText_head (piece : Option Event) : (chunkText keepAlive piece).head? ≠ some '\uFEFF' := by
  cases piece with
  | some event =>
      obtain ⟨c, rest, htext, hmark⟩ := event.serialize_head
      show event.serialize.toList.head? ≠ _
      rw [htext]
      simpa using hmark
  | none => cases keepAlive <;> simp [chunkText]

theorem chunkText_ne (event : Event) : chunkText keepAlive (some event) ≠ [] := by
  obtain ⟨c, rest, htext, -⟩ := event.serialize_head
  show event.serialize.toList ≠ []
  rw [htext]
  exact List.cons_ne_nil c rest

theorem pieces_head {pieces : List (Option Event)} (h : Comments keepAlive pieces) :
    (pieces.flatMap (chunkText keepAlive)).head? ≠ some '\uFEFF' := by
  cases pieces with
  | nil => simp
  | cons piece pieces =>
      have hne : chunkText keepAlive piece ≠ [] := by
        cases piece with
        | some event => exact chunkText_ne event
        | none =>
            obtain ⟨ka, rfl, -⟩ := h (List.mem_cons_self ..)
            simp [chunkText]
      rw [List.flatMap_cons, List.head?_append_of_ne_nil _ hne]
      exact chunkText_head piece

theorem eventStream_head (sent : List Event) : (sent.flatMap (·.serialize.toList)).head? ≠ some '\uFEFF' := by
  cases sent with
  | nil => simp
  | cons event sent =>
      obtain ⟨c, rest, htext, hmark⟩ := event.serialize_head
      rw [List.flatMap_cons, htext]
      simpa using hmark

/-- The pieces dispatch what the events among them do. -/
theorem events_pieces {pieces : List (Option Event)} (h : Comments keepAlive pieces) :
    events (pieces.flatMap (chunk keepAlive)) = events (eventStream pieces.reduceOption) := by
  have hends : ∀ piece ∈ pieces, ∃ text, chunkText keepAlive piece = text ++ ['\n'] := by
    intro piece hpiece
    cases piece with
    | some event => exact (lines_serialize event).1
    | none =>
        obtain ⟨ka, rfl, -⟩ := h hpiece
        exact ⟨": ".toList ++ ka.text.toList ++ ['\n'], by simp [chunkText]⟩
  unfold events
  rw [chunks_eq, eventStream_eq, decode_asBytes (by rw [String.toList_ofList]; exact pieces_head h),
    decode_asBytes (by rw [String.toList_ofList]; exact eventStream_head _), String.toList_ofList,
    String.toList_ofList, lines_flatMap _ hends, lines_flatMap _ fun event _ => (lines_serialize event).1]
  exact interpret_pieces pieces h _ clear_empty

/-- What is dispatched of the pieces so far, and when that is all that was sent. -/
theorem Progress.dispatched {s : Stream} {pieces : List (Option Event)} {rest : List Event}
    (hp : Progress head s pieces rest) (hka : ∀ ka, s.keepAlive = some ka → OneLine ka.text.toList) :
    events (s.wire.drop head.length) <+: events (eventStream s.sent) ∧
      (s.phase = .closed ∨ (s.phase = .waiting ∧ s.queue = []) →
        events (s.wire.drop head.length) = events (eventStream s.sent)) := by
  have hcomments : Comments s.keepAlive pieces := by
    intro hnone
    cases hcase : s.keepAlive with
    | none => exact absurd hnone (hp.comments hcase)
    | some ka => exact ⟨ka, rfl, hka ka hcase⟩
  have hsent : eventStream pieces.reduceOption <+: eventStream s.sent := by
    rw [hp.sent]
    unfold eventStream
    rw [List.flatMap_append]
    exact List.prefix_append ..
  have hbody : s.wire.drop head.length <+: pieces.flatMap (chunk s.keepAlive) := by
    have hdrop := hp.begun.drop head.length
    rwa [List.drop_left] at hdrop
  refine ⟨?_, ?_⟩
  · calc events (s.wire.drop head.length)
        <+: events (pieces.flatMap (chunk s.keepAlive)) := by
          rw [chunks_eq] at hbody ⊢
          exact events_prefix (by rw [String.toList_ofList]; exact pieces_head hcomments) hbody
      _ = events (eventStream pieces.reduceOption) := events_pieces hcomments
      _ <+: events (eventStream s.sent) := by
          rw [eventStream_eq s.sent] at hsent ⊢
          exact events_prefix (by rw [String.toList_ofList]; exact eventStream_head _) hsent
  · intro hend
    have hall : rest = [] ∧ s.phase.pending = [] ∧ s.phase ≠ .broken := by
      rcases hend with hclosed | ⟨hwaiting, hempty⟩
      · exact ⟨hp.ended hclosed, by rw [hclosed]; rfl, by simp [hclosed]⟩
      · have hqueue := hp.queue (by simp [hwaiting])
        rw [hempty] at hqueue
        exact ⟨List.map_eq_nil_iff.mp hqueue.symm, by rw [hwaiting]; rfl, by simp [hwaiting]⟩
    obtain ⟨hrest, hpending, hbroken⟩ := hall
    have htaken := hp.taken hbroken
    rw [hpending, List.append_nil] at htaken
    rw [htaken, List.drop_left, events_pieces hcomments, hp.sent, hrest, List.append_nil]

/--
**A browser dispatches what was sent, and nothing else.**  At every moment of every run,
wherever the interval ended and wherever a write was cut off: the events that the bytes
behind the response head dispatch are the first of those that the events sent so far
dispatch on a stream of their own.  They are all of them when the sender is gone and the
loop has returned, and whenever it waits with nothing in the channel.
-/
theorem dispatched_in_order (hka : ∀ ka, keepAlive = some ka → OneLine ka.text.toList)
    {labels : List Label} {s : Stream}
    (h : (system head keepAlive).exec (system head keepAlive).init labels = some s) :
    events (s.wire.drop head.length) <+: events (eventStream s.sent) ∧
      (s.phase = .closed ∨ (s.phase = .waiting ∧ s.queue = []) →
        events (s.wire.drop head.length) = events (eventStream s.sent)) := by
  obtain ⟨rfl, pieces, rest, hp⟩ := progress_run h
  exact hp.dispatched hka

theorem dispatched_in_order_two : ∃ s, pinging.exec pinging.init twoEvents = some s ∧
    events (s.wire.drop 2) = [
      { type := [], data := "a".toList, lastId := [] }, { type := "t".toList, data := "b".toList, lastId := [] }] := by
  obtain ⟨s, hs, hclosed, hsent⟩ := twoEvents_run
  refine ⟨s, hs, ((dispatched_in_order ?_ hs).2 (Or.inl hclosed)).trans ?_⟩
  · intro ka hka
    obtain rfl := Option.some.inj hka
    decide
  · rw [hsent]
    decide

/-! ### The server's record -/

/-- What the writes of a stream are, in the order of their returns: only the last can have failed. -/
structure Written (head : List UInt8) (s : Stream) : Prop where
  first : (s.writes.map (·.1) ++ [s.phase.pending]).head? = some head
  good : s.phase ≠ .broken → ∀ w ∈ s.writes, w.2 = true
  bad : s.phase = .broken → ∃ good last, s.writes = good ++ [(last, false)] ∧ ∀ w ∈ good, w.2 = true
  some_write : s.phase = .waiting ∨ s.phase = .closed → s.writes ≠ []

theorem written_turn {s s' : Stream} {l : Label} (hw : Written head s) (h : Turn s l s') : Written head s' := by
  cases h with
  | sent event hreceiver => exact ⟨hw.first, hw.good, hw.bad, hw.some_write⟩
  | refused event hreceiver => exact hw
  | dropped => exact ⟨hw.first, hw.good, hw.bad, hw.some_write⟩
  | received data queue hwaiting hdata =>
      refine ⟨?_, fun _ => hw.good (by simp [hwaiting]), by simp, by simp⟩
      have hne := hw.some_write (Or.inl hwaiting)
      have hfirst := hw.first
      rw [List.head?_append_of_ne_nil _ (by simpa using hne)] at hfirst ⊢
      exact hfirst
  | closed hwaiting hempty hsender =>
      have hfirst := hw.first
      rw [hwaiting] at hfirst
      exact ⟨hfirst, fun _ => hw.good (by simp [hwaiting]), by simp, fun _ => hw.some_write (Or.inl hwaiting)⟩
  | elapsed ka hwaiting hka =>
      refine ⟨?_, fun _ => hw.good (by simp [hwaiting]), by simp, by simp⟩
      have hne := hw.some_write (Or.inl hwaiting)
      have hfirst := hw.first
      rw [List.head?_append_of_ne_nil _ (by simpa using hne)] at hfirst ⊢
      exact hfirst
  | wrote buf hwriting =>
      have hfirst := hw.first
      rw [hwriting, Phase.pending] at hfirst
      have hgood := hw.good (by simp [hwriting])
      refine ⟨?_, ?_, by simp, by simp⟩
      · rw [List.map_append, List.head?_append_of_ne_nil _ (by simp)]
        exact hfirst
      · intro _ w hmem
        rcases List.mem_append.mp hmem with hbefore | hlast
        · exact hgood w hbefore
        · rw [List.mem_singleton.mp hlast]
  | failed buf taken hwriting =>
      have hfirst := hw.first
      rw [hwriting, Phase.pending] at hfirst
      have hgood := hw.good (by simp [hwriting])
      refine ⟨?_, by simp, fun _ => ⟨s.writes, buf, rfl, hgood⟩, by simp⟩
      rw [List.map_append, List.head?_append_of_ne_nil _ (by simp)]
      exact hfirst

theorem written_run {labels : List Label} {s : Stream}
    (h : (system head keepAlive).exec (system head keepAlive).init labels = some s) : Written head s := by
  refine Lts.exec_invariant (M := system head keepAlive) (I := Written head) ?_ ?_ h
  · exact ⟨rfl, by simp [system], by simp [system], by simp [system]⟩
  · intro s l s' hw hs
    exact written_turn hw (turn_of_step hs)

/-- The writes of a stream, as the server's loop makes them from a list of buffers. -/
theorem sseStreamingLoop_writes {A Ω : Type} (outside : Endpoint.Outside Ω) {good : List (List UInt8 × Bool)}
    (hgood : ∀ w ∈ good, w.2 = true) (last : Option (List UInt8)) : ∀ out : Endpoint.Log A,
    (∀ i < good.length, outside.accepts (out.length + i) = true) →
    (last.isSome = true → outside.accepts (out.length + good.length) = false) →
    Endpoint.sseStreamingLoop outside out (good.map (·.1) ++ last.toList)
      = out ++ (good.map (·.1) ++ last.toList).map .sse := by
  induction good with
  | nil =>
      intro out _ hlast
      cases last with
      | none => simp [Endpoint.sseStreamingLoop]
      | some buf =>
          have hfails := hlast rfl
          simp only [List.length_nil, Nat.add_zero] at hfails
          simp [Endpoint.sseStreamingLoop, hfails]
  | cons w good ih =>
      intro out haccepts hlast
      have hfirst := haccepts 0 (by simp)
      rw [Nat.add_zero] at hfirst
      have hrest := ih (fun v hv => hgood v (List.mem_cons_of_mem _ hv)) (out ++ [.sse w.1]) ?_ ?_
      · simp [Endpoint.sseStreamingLoop, hfirst, hrest]
      · intro i hi
        have := haccepts (i + 1) (by simpa using hi)
        simpa [Nat.add_assoc, Nat.add_comm 1 i] using this
      · intro hsome
        have := hlast hsome
        simpa [Nat.add_assoc, Nat.add_comm 1] using this

theorem Written.split {s : Stream} (hw : Written head s) (hend : s.phase = .closed ∨ s.phase = .broken) :
    ∃ (good : List (List UInt8 × Bool)) (last : Option (List UInt8)),
      s.writes = good ++ (last.map fun buf => (buf, false)).toList ∧ (∀ w ∈ good, w.2 = true) ∧
      (good.map (·.1) ++ last.toList).head? = some head := by
  have hfirst := hw.first
  rcases hend with hclosed | hbroken
  · refine ⟨s.writes, none, by simp, hw.good (by simp [hclosed]), ?_⟩
    rw [List.head?_append_of_ne_nil _ (by simpa using hw.some_write (Or.inr hclosed))] at hfirst
    simpa using hfirst
  · obtain ⟨good, last, hwrites, hgood⟩ := hw.bad hbroken
    refine ⟨good, some last, hwrites, hgood, ?_⟩
    rw [List.head?_append_of_ne_nil _ (by simp [hwrites]), hwrites] at hfirst
    simpa using hfirst

/--
**The server's record of a stream is a run of the loop.**  Where the stream among the
assigns stands for the buffers that a run writes behind the head, and the outside
accepts what the run wrote: what `execute_and_respond` records is that run, write by
write, and then it closes the connection.
-/
theorem respond_of_run {A Ω : Type} (srv : Endpoint.Server A Ω) (outside : Endpoint.Outside Ω)
    (out : Endpoint.Log A) (conn : Conn A) (keepAliveFlag : Bool)
    (hhead : head = HttpParse.serializeSseHeadersInto srv.rendering (outside.date out.length) conn)
    {labels : List Label} {s : Stream}
    (h : (system head keepAlive).exec (system head keepAlive).init labels = some s)
    (hend : s.phase = .closed ∨ s.phase = .broken)
    (hsse : conn.assigns.bind srv.sse = some (s.writes.map (·.1)).tail)
    (haccepts : ∀ i w, s.writes[i]? = some w → outside.accepts (out.length + i) = w.2) :
    srv.respond outside out conn keepAliveFlag = (out ++ s.writes.map (fun w => .sse w.1), some .close) := by
  obtain ⟨good, last, hwrites, hgood, hfirst⟩ := (written_run h).split hend
  unfold Endpoint.Server.respond
  rw [hsse]
  dsimp only
  rw [← hhead]
  cases good with
  | nil =>
      -- the head could not be written
      cases last with
      | none => cases hfirst
      | some buf =>
          obtain rfl : buf = head := by simpa using hfirst
          have hfails := haccepts 0 (buf, false) (by simp [hwrites])
          rw [Nat.add_zero] at hfails
          simp [hwrites, hfails]
  | cons w good =>
      obtain rfl : w.1 = head := by simpa using hfirst
      have hw := hgood w (List.mem_cons_self ..)
      have hok := haccepts 0 w (by simp [hwrites])
      rw [Nat.add_zero, hw] at hok
      have htail : (s.writes.map (·.1)).tail = good.map (·.1) ++ last.toList := by
        rw [hwrites]
        cases last <;> simp
      rw [if_pos hok, htail, sseStreamingLoop_writes outside (fun v hv => hgood v (List.mem_cons_of_mem _ hv)) last]
      · rw [hwrites]
        cases last <;> simp
      · intro i hi
        have hplace : s.writes[i + 1]? = some good[i] := by
          rw [hwrites, List.cons_append, List.getElem?_cons_succ, List.getElem?_append_left hi,
            List.getElem?_eq_getElem hi]
        have := haccepts (i + 1) _ hplace
        rw [hgood _ (List.mem_cons_of_mem _ (List.getElem_mem hi))] at this
        simpa [Nat.add_assoc, Nat.add_comm 1 i] using this
      · intro hsome
        obtain ⟨buf, rfl⟩ := Option.isSome_iff_exists.mp hsome
        have hplace : s.writes[good.length + 1]? = some (buf, false) := by
          rw [hwrites, List.cons_append, List.getElem?_cons_succ]
          simp
        have := haccepts (good.length + 1) _ hplace
        simpa [Nat.add_assoc, Nat.add_comm 1] using this

end Mahalo.SseStreaming
