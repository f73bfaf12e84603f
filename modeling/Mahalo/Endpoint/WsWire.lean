/-
The two tasks that write to one WebSocket stream.

`ws_streaming_loop` detaches a task that writes the channel's messages and goes
on itself to write PONG and CLOSE replies.  Both call `write_all` on the shared
stream, which writes as much of its buffer as the stream takes and waits, and
while it waits the other task may run.  A label is one such turn, so a run is
any schedule.
-/
import Mahalo.Endpoint.WsStreaming
import Mahalo.Lib.Lts

namespace Mahalo.WsWire

open WsParse WsStreaming

inductive Task where
  /-- the detached writer: channel messages to the stream -/
  | writer
  /-- the reader, for its replies -/
  | reader
  deriving DecidableEq, Repr

def Task.other : Task → Task
  | .writer => .reader
  | .reader => .writer

/-- A `write_all` under way: its buffer, and how much of it the stream has taken. -/
structure Writing where
  buf : List UInt8
  written : Nat
  deriving DecidableEq, Repr

def Writing.sofar (w : Writing) : List UInt8 := w.buf.take w.written

/-- Where a task is in its loop. -/
inductive Phase where
  /-- waiting for a message, or for bytes to read -/
  | idle
  /-- in `write_all`; the reader returns after a CLOSE frame -/
  | writing (w : Writing) (last : Bool)
  /-- `write_all` failed and the task returned -/
  | broken (w : Writing)
  | returned
  deriving DecidableEq, Repr

/-- The buffer a task has begun and not finished. -/
def Phase.unfinished : Phase → Option Writing
  | .writing w _ => some w
  | .broken w => some w
  | _ => none

/-- Both tasks, what the client has received, and the buffers `write_all` has written whole. -/
structure Wire where
  writer : Phase
  reader : Phase
  wire : List UInt8
  finished : List (List UInt8)
  deriving DecidableEq, Repr

def Wire.phase (s : Wire) : Task → Phase
  | .writer => s.writer
  | .reader => s.reader

def Wire.setPhase (s : Wire) : Task → Phase → Wire
  | .writer, p => { s with writer := p }
  | .reader, p => { s with reader := p }

inductive Label where
  /-- `ws_out_rx.recv` gives the writer a message -/
  | message (text : String)
  /-- the reader has parsed a frame -/
  | frame (f : WsFrame)
  /-- the reader's buffer can never hold a frame -/
  | invalid (e : WsError)
  /-- the reader's buffer is full and may not be doubled -/
  | tooBig
  /-- the reader returns without a reply: end of stream, read error, channel server gone -/
  | hangup
  /-- the stream takes `n` more bytes of a task's buffer -/
  | put (task : Task) (n : Nat)
  /-- a task's write fails -/
  | fail (task : Task)
  deriving DecidableEq, Repr

/-- A task calls `write_all`. -/
def Wire.begin (s : Wire) (task : Task) (buf : List UInt8) (last : Bool) : Wire :=
  s.setPhase task (.writing { buf, written := 0 } last)

/-- What the reader goes on to after it has handled a frame: a reply to write, or nothing. -/
def Wire.reply (s : Wire) : List ReaderEvent × Option Stop → Wire
  | ([.write buf], stop) => s.begin .reader buf stop.isSome
  | _ => s

/-- One turn of a task. -/
def step (s : Wire) : Label → Option Wire
  | .message text =>
      if s.writer = .idle then
        some (s.begin .writer (serializeFrame opcodeText (RustStd.asBytes text)) false)
      else none
  | .frame f =>
      if s.reader = .idle then some (s.reply (onFrame (fun _ => true) [] f)) else none
  | .invalid e =>
      if s.reader = .idle then some (s.reply ((onError [] e).1, some (onError [] e).2)) else none
  | .tooBig =>
      if s.reader = .idle then
        some (s.begin .reader (serializeCloseFrame 1009 messageTooBigReason) true)
      else none
  | .hangup => if s.reader = .idle then some (s.setPhase .reader .returned) else none
  | .put task n =>
      match s.phase task with
      | .writing w last =>
          if 0 < n ∧ w.written + n ≤ w.buf.length then
            let s := { s with wire := s.wire ++ (w.buf.drop w.written).take n }
            if w.written + n = w.buf.length then
              some { s.setPhase task (if last then .returned else .idle) with
                finished := s.finished ++ [w.buf] }
            else some (s.setPhase task (.writing { w with written := w.written + n } last))
          else none
      | _ => none
  | .fail task =>
      match s.phase task with
      | .writing w _ => some (s.setPhase task (.broken w))
      | _ => none

def system : Lts.System Wire Label where
  init := { writer := .idle, reader := .idle, wire := [], finished := [] }
  step := step

end Mahalo.WsWire
