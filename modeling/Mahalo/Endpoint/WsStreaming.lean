/-
`ws_streaming_loop`: the WebSocket phase of a connection.

The reader is the loop of the source: grow the buffer, read behind the bytes it
already holds, then take complete frames off the front.  What it does to the
outside, a text sent on `ws_msg_tx` or a frame written to the stream, is recorded
in order; `accepts n` says whether the `n`-th such operation succeeds.  Its two
loops take fuel, and `Proofs/Endpoint/WsStreaming.lean` shows the fuel they are
given never runs out.
-/
import Mahalo.Endpoint.Stream
import Mahalo.Endpoint.WsParse

namespace Mahalo.WsStreaming

open WsParse Segments

/-- `WS_MAX_FRAME_SIZE` -/
def wsMaxFrameSize : Nat := 2 ^ 20

/-- What the reader does to the outside. -/
inductive ReaderEvent where
  /-- `ws_msg_tx.send` -/
  | send (text : String)
  /-- `stream.write_all` of a PONG or CLOSE frame -/
  | write (bytes : List UInt8)
  deriving DecidableEq, Repr

/-- Why the reader returned. -/
inductive Stop where
  | endOfStream
  | readError
  | messageTooBig
  | genServerGone
  | writeFailed
  | closed
  | unknownOpcode
  | protocolError
  | outOfFuel
  deriving DecidableEq, Repr

/-- Everything the reader did, why it returned, and the bytes it had not consumed by then. -/
structure Outcome where
  out : List ReaderEvent
  stop : Stop
  unread : List UInt8
  deriving DecidableEq, Repr

/-- The CLOSE frame that answers a CLOSE frame: its code and reason echoed, or 1000. -/
def closeReply (payload : List UInt8) : List UInt8 :=
  if payload.length ≥ 2 then
    serializeCloseFrame (fromBeBytes (slice payload 0 2)) (payload.drop 2)
  else serializeCloseFrame 1000 []

/-- What the reader does with one frame: its match on the opcode. -/
def onFrame (accepts : Nat → Bool) (out : List ReaderEvent) (frame : WsFrame) :
    List ReaderEvent × Option Stop :=
  if frame.opcode = opcodeText then
    (out ++ [.send (RustStd.fromUtf8Lossy frame.payload)],
      if accepts out.length then none else some .genServerGone)
  else if frame.opcode = opcodeBinary then (out, none)
  else if frame.opcode = opcodePing then
    (out ++ [.write (serializeFrame opcodePong frame.payload)],
      if accepts out.length then none else some .writeFailed)
  else if frame.opcode = opcodePong then (out, none)
  else if frame.opcode = opcodeClose then
    (out ++ [.write (closeReply frame.payload)], some .closed)
  else (out ++ [.write (serializeCloseFrame 1002 [])], some .unknownOpcode)

/-- `b"protocol error"` and `b"message too big"` -/
def protocolErrorReason : List UInt8 := RustStd.asBytes "protocol error"
def messageTooBigReason : List UInt8 := RustStd.asBytes "message too big"

/-- What the reader does with a buffer no frame can start with. -/
def onError (out : List ReaderEvent) (_ : WsError) : List ReaderEvent × Stop :=
  (out ++ [.write (serializeCloseFrame 1002 protocolErrorReason)], .protocolError)

/-- The variables of the reader loop, what has yet to arrive, and what was done so far. -/
structure Reader where
  readBuf : List UInt8
  filled : Nat
  incoming : Incoming
  out : List ReaderEvent

/-- How the inner loop ends: with the buffer for the next read, or returned. -/
inductive Parsed where
  | more (readBuf : List UInt8) (filled : Nat) (out : List ReaderEvent)
  | stop (out : List ReaderEvent) (stop : Stop) (unread : List UInt8)

/-- Parse as many frames as possible from the buffer. -/
def parseLoop (accepts : Nat → Bool) :
    Nat → List UInt8 → Nat → List ReaderEvent → Parsed
  | 0, readBuf, filled, out => .stop out .outOfFuel (readBuf.take filled)
  | fuel + 1, readBuf, filled, out =>
      match tryParseFrame (readBuf.take filled) with
      | .ok (some (frame, consumed)) =>
          match onFrame accepts out frame with
          | (out', some s) => .stop out' s ((readBuf.take filled).drop consumed)
          | (out', none) =>
              -- shift the unconsumed bytes to the front
              parseLoop accepts fuel (copyWithin readBuf consumed filled) (filled - consumed) out'
      | .ok none => .more readBuf filled out
      | .error e => .stop (onError out e).1 (onError out e).2 (readBuf.take filled)

/-- `&read_buf[..filled]` -/
def Reader.buffered (r : Reader) : List UInt8 := r.readBuf.take r.filled

/-- The buffer the next read is made with: doubled when it is full. -/
def Reader.grown (r : Reader) : List UInt8 :=
  if r.filled = r.readBuf.length then resize r.readBuf (r.readBuf.length * 2) else r.readBuf

/-- One round of the outer loop: the variables for the next, or the outcome. -/
def readerStep (accepts : Nat → Bool) (r : Reader) : Reader ⊕ Outcome :=
  if r.filled = r.readBuf.length ∧ r.readBuf.length ≥ wsMaxFrameSize then
    .inr { out := r.out ++ [.write (serializeCloseFrame 1009 messageTooBigReason)]
           stop := .messageTooBig
           unread := r.buffered ++ r.incoming.bytes }
  else
    -- `split_off(filled)`: the tail is what the read is offered
    let tail := r.grown.drop r.filled
    let head := r.grown.take r.filled
    match r.incoming.read tail.length with
    | (.err, _) => .inr { out := r.out, stop := .readError, unread := head }
    | (.ok returned, incoming) =>
        if returned.length = 0 then
          .inr { out := r.out, stop := .endOfStream, unread := head ++ incoming.bytes }
        else
          let buf := head ++ returned
          let filled := r.filled + returned.length
          match parseLoop accepts (filled + 1) buf filled r.out with
          | .more buf filled out => .inl { readBuf := buf, filled, incoming, out }
          | .stop out s unread => .inr { out, stop := s, unread := unread ++ incoming.bytes }

def readerRun (accepts : Nat → Bool) : Nat → Reader → Outcome
  | 0, r => { out := r.out, stop := .outOfFuel, unread := r.buffered ++ r.incoming.bytes }
  | fuel + 1, r =>
      match readerStep accepts r with
      | .inr outcome => outcome
      | .inl r' => readerRun accepts fuel r'

/-- The variables as `ws_streaming_loop` sets them up. -/
def readerInit (incoming : Incoming) : Reader :=
  { readBuf := List.replicate defaultBufSize 0, filled := 0, incoming, out := [] }

/-- The reader of `ws_streaming_loop`, with one round for each byte and one for the end. -/
def reader (accepts : Nat → Bool) (incoming : Incoming) : Outcome :=
  readerRun accepts (incoming.bytes.length + 1) (readerInit incoming)

end Mahalo.WsStreaming
