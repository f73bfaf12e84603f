/-
What can follow a CLOSE frame.

The reader returns once it has written a CLOSE frame, so nothing of its own can
follow (`Closing`).  But the writer is detached: it has its own handle to the
stream and its end of `ws_out`, and nothing tells it that the other task has closed.
Whatever it has begun, or finds in the queue then or later, it writes.
-/
import Mahalo.Proofs.Endpoint.WsConnection
import Mahalo.Proofs.Endpoint.WsWire

namespace Mahalo.WsWire

open WsParse WsStreaming

/-- A CLOSE frame: an echo, 1002 or 1009. -/
def IsClose (b : List UInt8) : Prop := ∃ code reason, b = serializeCloseFrame code reason

/-- A CLOSE frame has been written. -/
def Wire.Closed (s : Wire) : Prop := ∃ b ∈ s.finished, IsClose b

/-! ### Frames that are no CLOSE frame -/

theorem serializeFrame_head (opcode : UInt8) (payload : List UInt8) :
    (serializeFrame opcode payload).head? = some (0x80 ||| opcode) := rfl

theorem not_isClose {opcode : UInt8} (h : (0x80 : UInt8) ||| opcode ≠ 0x80 ||| opcodeClose)
    (payload : List UInt8) : ¬IsClose (serializeFrame opcode payload) := by
  rintro ⟨code, reason, hclose⟩
  have hhead := congrArg List.head? hclose
  unfold serializeCloseFrame at hhead
  rw [serializeFrame_head, serializeFrame_head] at hhead
  exact h (Option.some.inj hhead)

theorem serializeFrame_pos (opcode : UInt8) (payload : List UInt8) :
    0 < (serializeFrame opcode payload).length := IsFrame.pos ⟨opcode, payload, rfl⟩

/-- What the reader replies to a frame is a CLOSE frame just where it then returns. -/
theorem onFrame_close {f : WsFrame} {buf : List UInt8} {stop : Option Stop}
    (h : onFrame (fun _ => true) [] f = ([.write buf], stop)) (hclose : IsClose buf) :
    stop.isSome = true := by
  obtain ⟨payload, rfl⟩ | ⟨-, hstop⟩ := onFrame_write h
  · exact absurd hclose (not_isClose (by decide) _)
  · exact hstop

/-! ### The reader returns with its CLOSE frame -/

structure Closing (s : Wire) : Prop where
  /-- Only the reader writes a CLOSE frame, and as its last. -/
  begun : ∀ task w last, s.phase task = .writing w last →
    w.written < w.buf.length ∧ (IsClose w.buf → task = .reader ∧ last = true)
  closed : s.Closed → s.reader = .returned

theorem closing_init : Closing system.init where
  begun := by intro task w last h; cases task <;> cases h
  closed := by rintro ⟨b, hb, -⟩; cases hb

/-- A task that goes on to a phase in which it writes nothing, or begins a buffer. -/
theorem closing_setPhase {s : Wire} (hc : Closing s) {task : Task} {p : Phase}
    (hbegun : ∀ w last, p = .writing w last →
      w.written < w.buf.length ∧ (IsClose w.buf → task = .reader ∧ last = true))
    (hreturned : task = .reader → s.reader = .returned → p = .returned) :
    Closing (s.setPhase task p) where
  begun := by
    intro t w last ht
    rcases task_cases task t with rfl | rfl
    · rw [phase_setPhase] at ht
      exact hbegun w last ht
    · rw [phase_setPhase_other] at ht
      exact hc.begun _ w last ht
  closed := by
    intro hclosed
    unfold Wire.Closed at hclosed
    rw [setPhase_finished] at hclosed
    have hreader := hc.closed hclosed
    cases task with
    | writer => exact hreader
    | reader => exact hreturned rfl hreader

theorem closing_begin {s : Wire} (hc : Closing s) (task : Task) (hidle : s.phase task = .idle)
    {buf : List UInt8} {last : Bool} (hpos : 0 < buf.length)
    (hclose : IsClose buf → task = .reader ∧ last = true) : Closing (s.begin task buf last) := by
  refine closing_setPhase hc ?_ ?_
  · rintro w last' h
    cases h
    exact ⟨hpos, hclose⟩
  · rintro rfl hreader
    rw [show s.reader = .idle from hidle] at hreader
    cases hreader

theorem closing_reply {s : Wire} (hc : Closing s) (hidle : s.reader = .idle) :
    ∀ r : List ReaderEvent × Option Stop,
      (∀ buf stop, r = ([.write buf], stop) → IsFrame buf ∧ (IsClose buf → stop.isSome = true)) →
      Closing (s.reply r) := by
  rintro ⟨events, stop⟩ hreply
  rcases events with _ | ⟨e, _ | ⟨e', rest⟩⟩
  · exact hc
  · cases e with
    | send text => exact hc
    | write buf =>
        obtain ⟨hframe, hstop⟩ := hreply buf stop rfl
        exact closing_begin hc .reader hidle hframe.pos fun h => ⟨rfl, hstop h⟩
  · cases e <;> exact hc

/-- The stream takes some of a task's buffer. -/
theorem closing_put {s s' : Wire} (hc : Closing s) {task : Task} {n : Nat}
    (h : step s (.put task n) = some s') : Closing s' := by
  simp only [step] at h
  split at h
  · rename_i w last hphase
    obtain ⟨-, hlast⟩ := hc.begun task w last hphase
    have hwire : ∀ wire : List UInt8, Closing { s with wire } := by
      intro wire
      refine ⟨?_, hc.closed⟩
      intro t
      cases t with
      | writer => exact hc.begun .writer
      | reader => exact hc.begun .reader
    have hreader : task = .reader → s.reader ≠ .returned := by
      rintro rfl hreturned
      rw [show s.reader = .writing w last from hphase] at hreturned
      cases hreturned
    split at h
    · split at h
      · cases h
        have hdone : Closing ({ s with wire := s.wire ++ (w.buf.drop w.written).take n }.setPhase
            task (if last then .returned else .idle)) := by
          refine closing_setPhase (hwire _) ?_ fun ht hr => absurd hr (hreader ht)
          intro w' last' hw'
          split at hw' <;> cases hw'
        refine ⟨?_, ?_⟩
        · intro t
          cases t with
          | writer => exact hdone.begun .writer
          | reader => exact hdone.begun .reader
        · rintro ⟨b, hb, hclose⟩
          rcases List.mem_append.mp hb with hb | hb
          · refine hdone.closed ⟨b, ?_, hclose⟩
            rw [setPhase_finished]
            exact hb
          · rw [List.mem_singleton.mp hb] at hclose
            obtain ⟨rfl, rfl⟩ := hlast hclose
            rfl
      · cases h
        refine closing_setPhase (hwire _) ?_ fun ht hr => absurd hr (hreader ht)
        intro w' last' hw'
        cases hw'
        exact ⟨by simp only; omega, hlast⟩
    · cases h
  · cases h

theorem closing_step {s s' : Wire} {l : Label} (hc : Closing s) (h : step s l = some s') :
    Closing s' := by
  cases l with
  | message text =>
      simp only [step] at h
      split at h
      · rename_i hidle
        cases h
        exact closing_begin hc .writer hidle (serializeFrame_pos _ _) fun hclose =>
          absurd hclose (not_isClose (by decide) _)
      · cases h
  | frame f =>
      simp only [step] at h
      split at h
      · rename_i hidle
        cases h
        exact closing_reply hc hidle _ fun _ _ hr => ⟨onFrame_reply hr, onFrame_close hr⟩
      · cases h
  | invalid e =>
      simp only [step] at h
      split at h
      · rename_i hidle
        cases h
        refine closing_reply hc hidle _ ?_
        intro buf stop hr
        cases hr
        exact ⟨⟨_, _, rfl⟩, fun _ => rfl⟩
      · cases h
  | tooBig =>
      simp only [step] at h
      split at h
      · rename_i hidle
        cases h
        exact closing_begin hc .reader hidle (serializeFrame_pos _ _) fun _ => ⟨rfl, rfl⟩
      · cases h
  | hangup =>
      simp only [step] at h
      split at h
      · cases h
        refine closing_setPhase hc ?_ fun _ _ => rfl
        intro w last hw
        cases hw
      · cases h
  | put task n => exact closing_put hc h
  | fail task =>
      simp only [step] at h
      split at h
      · rename_i w last hphase
        cases h
        refine closing_setPhase hc ?_ ?_
        · intro w' last' hw'
          cases hw'
        · rintro rfl hreturned
          rw [show s.reader = .writing w last from hphase] at hreturned
          cases hreturned
      · cases h

theorem closing_run {labels : List Label} {s : Wire}
    (h : system.exec system.init labels = some s) : Closing s :=
  Lts.exec_invariant (M := system) closing_init (fun _ _ _ hc hs => closing_step hc hs) h

/-- Where the reader has returned and the writer writes nothing, only a new message is a turn. -/
theorem turn_silent {s s' : Wire} (hreader : s.reader = .returned)
    (hwriter : ∀ w last, s.writer ≠ .writing w last) {l : Label} (h : step s l = some s') :
    ∃ text, l = .message text := by
  have hphase : ∀ task w last, s.phase task ≠ .writing w last := by
    intro task w last hw
    cases task with
    | writer => exact hwriter w last hw
    | reader =>
        rw [show s.phase .reader = .returned from hreader] at hw
        cases hw
  have hidle : s.reader ≠ .idle := by
    rw [hreader]
    nofun
  cases l with
  | message text => exact ⟨text, rfl⟩
  | put task n =>
      simp only [step] at h
      split at h
      · rename_i w last hw
        exact absurd hw (hphase task w last)
      · cases h
  | fail task =>
      simp only [step] at h
      split at h
      · rename_i w last hw
        exact absurd hw (hphase task w last)
      · cases h
  | _ =>
      simp only [step] at h
      rw [if_neg hidle] at h
      cases h

/-- A task that has begun a buffer can write it whole. -/
theorem put_whole {s : Wire} (task : Task) {w : Writing} {last : Bool}
    (hphase : s.phase task = .writing w last) (hmore : w.written < w.buf.length) :
    ∃ s', step s (.put task (w.buf.length - w.written)) = some s' ∧
      s'.finished = s.finished ++ [w.buf] := by
  have hroom : 0 < w.buf.length - w.written ∧
      w.written + (w.buf.length - w.written) ≤ w.buf.length := by omega
  simp only [step]
  rw [hphase]
  simp only
  rw [if_pos hroom, if_pos (by omega)]
  exact ⟨_, rfl, rfl⟩

end Mahalo.WsWire

namespace Mahalo.WsConnection

open WsParse WsWire Channels

variable {α Ω : Type}

/-- The writer is not in `write_all`, and where it waits for a message there is none in `ws_out`. -/
def Session.NothingToWrite (s : Session α Ω) : Prop :=
  (∀ w last, s.stream.writer ≠ .writing w last) ∧
    (s.stream.writer = .idle → s.sys.out.length ≤ s.taken)

variable [EmptyCollection α] {serde : SerdeJson} {router : ChannelRouter α Ω}
  {s s' : Session α Ω}

/-- With the reader gone and nothing to write, no turn is one at the stream. -/
theorem silent_step (hreader : s.stream.reader = .returned) (hnothing : s.NothingToWrite)
    {l : SessionLabel Ω} (h : s.step serde router l = some s') : s'.stream = s.stream := by
  obtain ⟨hwriter, hqueue⟩ := hnothing
  cases step_move h with
  | stream _ hturn hmessage _ =>
      obtain ⟨text, htext⟩ := turn_silent hreader hwriter hturn
      exact absurd htext (hmessage text)
  | recv hmsg hturn =>
      simp only [WsWire.step] at hturn
      split at hturn
      · rename_i hidle
        have htaken := (List.getElem?_eq_some_iff.mp hmsg).1
        have hnone := hqueue hidle
        omega
      · cases hturn
  | _ => rfl

variable (serde router) in
/-- The writer takes the next message from `ws_out`, and has its frame before it. -/
theorem recv_begins (hidle : s.stream.writer = .idle) (hqueue : s.taken < s.sys.out.length) :
    ∃ s', s.step serde router .recv = some s' ∧ s'.stream.finished = s.stream.finished ∧
      ∃ w, s'.stream.writer = .writing w false ∧ w.written < w.buf.length := by
  have hbegin : WsWire.step s.stream (.message s.sys.out[s.taken])
      = some (s.stream.begin .writer _ false) := if_pos hidle
  simp only [Session.step, Session.recv]
  rw [List.getElem?_eq_getElem hqueue]
  simp only
  rw [hbegin]
  exact ⟨_, rfl, rfl, _, rfl, serializeFrame_pos _ _⟩

variable (serde router) in
/-- The writer writes what it has begun to the end. -/
theorem writer_finishes {w : Writing} {last : Bool} (hwriting : s.stream.writer = .writing w last)
    (hmore : w.written < w.buf.length) :
    ∃ l s', s.step serde router l = some s' ∧
      s'.stream.finished = s.stream.finished ++ [w.buf] := by
  obtain ⟨stream, hput, hfinished⟩ := put_whole .writer hwriting hmore
  refine ⟨.stream (.put .writer (w.buf.length - w.written)), { s with stream }, ?_, hfinished⟩
  simp only [Session.step, Session.onStream]
  rw [hput]
  rfl

/--
**Nothing follows a CLOSE frame that finds the writer with nothing to write.**  In
every run that has written a CLOSE frame: nothing is written from there on if the
writer is never in `write_all`, and never has a message waiting while it is idle.
At any moment at which it has, it can go on to write one more frame.
-/
theorem nothing_follows_close (serde : SerdeJson) (router : ChannelRouter α Ω)
    {labels : List (SessionLabel Ω)} {s : Session α Ω}
    (h : (sessionSystem serde router).exec Session.init labels = some s)
    (hclosed : s.stream.Closed) :
    (∀ more t,
      (sessionSystem serde router).Along (fun u _ => u.NothingToWrite) s more →
      (sessionSystem serde router).exec s more = some t →
        t.stream.wire = s.stream.wire ∧ t.stream.finished = s.stream.finished) ∧
    (¬s.NothingToWrite → ∃ more t frame,
      (sessionSystem serde router).exec s more = some t ∧
        t.stream.finished = s.stream.finished ++ [frame]) := by
  obtain ⟨turns, hturns⟩ := stream_run h
  have hclosing := closing_run hturns
  have hreader := hclosing.closed hclosed
  refine ⟨?_, ?_⟩
  · intro more t hal hmore
    have hsame : t.stream = s.stream := by
      refine Lts.exec_keeps_along (M := sessionSystem serde router)
        (I := fun t => t.stream = s.stream) ?_ rfl hal hmore
      intro u l u' hu hnothing hstep
      rw [← hu] at hreader ⊢
      exact silent_step hreader hnothing hstep
    rw [hsame]
    exact ⟨rfl, rfl⟩
  · intro hsome
    by_cases hwriting : ∃ w last, s.stream.writer = .writing w last
    · obtain ⟨w, last, hw⟩ := hwriting
      obtain ⟨l, s', hstep, hfinished⟩ := writer_finishes serde router hw
        (hclosing.begun .writer w last hw).1
      exact ⟨[l], s', w.buf, Lts.exec_step hstep, hfinished⟩
    · have hwaiting : s.stream.writer = .idle ∧ s.taken < s.sys.out.length := by
        by_contra hnot
        refine hsome ⟨fun w last hw => hwriting ⟨w, last, hw⟩, ?_⟩
        intro hidle
        by_contra hqueue
        exact hnot ⟨hidle, by omega⟩
      obtain ⟨s1, hrecv, hsame, w, hw, hmore⟩ := recv_begins serde router hwaiting.1 hwaiting.2
      obtain ⟨l, s2, hstep, hfinished⟩ := writer_finishes serde router hw hmore
      have hfirst : (sessionSystem serde router).step s .recv = some s1 := hrecv
      refine ⟨[.recv, l], s2, w.buf, ?_, ?_⟩
      · rw [Lts.exec_step hfirst]
        exact Lts.exec_step hstep
      · rw [hfinished, hsame]

theorem closed_echo {s : Wire} (h : s.finished = [[0x88, 2, 0x03, 0xe8]]) : s.Closed := by
  refine ⟨[0x88, 2, 0x03, 0xe8], ?_, 1000, [], by decide⟩
  rw [h]
  exact List.mem_singleton_self _

/-- The channel had no answer to what the client said before it closed. -/
theorem nothing_follows_close_say :
    ∃ s t, (sessionSystem roomSerde echoRouter).exec Session.init sayThenClose = some s ∧
      s.stream.finished = [[0x88, 2, 0x03, 0xe8]] ∧
      (sessionSystem roomSerde echoRouter).exec s [.relay] = some t ∧
      t.stream.wire = s.stream.wire ∧ t.stream.finished = s.stream.finished := by
  have hrun : (((sessionSystem roomSerde echoRouter).exec Session.init sayThenClose).bind fun s =>
      ((sessionSystem roomSerde echoRouter).exec s [.relay]).map fun _ =>
        (s.stream.finished, s.stream.writer, s.sys.out))
      = some ([[0x88, 2, 0x03, 0xe8]], .idle, []) := by decide +kernel
  obtain ⟨s, hs, hrelay⟩ := Option.bind_eq_some_iff.mp hrun
  obtain ⟨t, ht, hfacts⟩ := Option.map_eq_some_iff.mp hrelay
  simp only [Prod.mk.injEq] at hfacts
  obtain ⟨hfinished, hwriter, hout⟩ := hfacts
  refine ⟨s, t, hs, hfinished, ht, ?_⟩
  refine (nothing_follows_close roomSerde echoRouter hs (closed_echo hfinished)).1 _ t ?_ ht
  refine ⟨⟨?_, ?_⟩, fun _ _ => trivial⟩
  · intro w last hw
    rw [hwriter] at hw
    cases hw
  · intro _
    rw [hout]
    exact Nat.zero_le _

/-- A client joins, and closes while the reply to its join is still in `ws_out`. -/
def joinThenClose : List (SessionLabel Unit) :=
  [textIn joinText, .relay, .process .cast, .process (.run ()), .process (.run ()),
    .process (.run ())] ++ closeIn

/-- The writer takes the reply, and writes it behind the CLOSE frame. -/
theorem reply_after_close :
    ∃ s t, (sessionSystem roomSerde echoRouter).exec Session.init joinThenClose = some s ∧
      s.stream.Closed ∧ s.stream.wire = [0x88, 2, 0x03, 0xe8] ∧
      (sessionSystem roomSerde echoRouter).exec s [.recv, .stream (.put .writer 92)] = some t ∧
      t.stream.wire = [0x88, 2, 0x03, 0xe8] ++
        serializeFrame opcodeText (RustStd.asBytes (replyText "null" "1")) := by
  have hrun : (((sessionSystem roomSerde echoRouter).exec Session.init joinThenClose).bind fun s =>
      ((sessionSystem roomSerde echoRouter).exec s [.recv, .stream (.put .writer 92)]).map fun t =>
        (s.stream.finished, s.stream.wire, t.stream.wire))
      = some ([[0x88, 2, 0x03, 0xe8]], [0x88, 2, 0x03, 0xe8], [0x88, 2, 0x03, 0xe8] ++
          serializeFrame opcodeText (RustStd.asBytes (replyText "null" "1"))) := by decide +kernel
  obtain ⟨s, hs, hwrite⟩ := Option.bind_eq_some_iff.mp hrun
  obtain ⟨t, ht, hfacts⟩ := Option.map_eq_some_iff.mp hwrite
  simp only [Prod.mk.injEq] at hfacts
  obtain ⟨hfinished, hwire, hafter⟩ := hfacts
  exact ⟨s, t, hs, closed_echo hfinished, hwire, ht, hafter⟩

end Mahalo.WsConnection
