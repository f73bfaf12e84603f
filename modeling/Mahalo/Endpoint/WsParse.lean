/-
The WebSocket frame parser and serializer of `ws_parse.rs`.

Buffers are lists of bytes and lengths are natural numbers.  A payload length is
below `2^63` by the parser's own check, so no sum here reaches `2^64` and `usize`
arithmetic never wraps.
-/
import Mahalo.Lib.RustStd

namespace Mahalo.WsParse

/-! ### Opcodes -/

def opcodeContinuation : UInt8 := 0
def opcodeText : UInt8 := 1
def opcodeBinary : UInt8 := 2
def opcodeClose : UInt8 := 8
def opcodePing : UInt8 := 9
def opcodePong : UInt8 := 10

/-- A parsed frame.  The FIN bit is not among its fields. -/
structure WsFrame where
  opcode : UInt8
  payload : List UInt8
  deriving DecidableEq, Repr

inductive WsError where
  | incomplete
  | protocolError (msg : String)
  deriving DecidableEq, Repr

/-! ### Parsing -/

/-- `from_be_bytes`: the value of big-endian bytes. -/
def fromBeBytes (bs : List UInt8) : Nat := bs.foldl (fun acc b => acc * 256 + b.toNat) 0

/-- The slice `buf[lo..hi]`. -/
def slice (buf : List UInt8) (lo hi : Nat) : List UInt8 := (buf.take hi).drop lo

/-- The checks on the first two bytes, in the order the source makes them. -/
def checkHead (b0 b1 : UInt8) : Except WsError Unit :=
  let fin := b0 &&& 0x80 ≠ 0
  let opcode := b0 &&& 0x0F
  let masked := b1 &&& 0x80 ≠ 0
  if b0 &&& 0x70 ≠ 0 then .error (.protocolError "reserved bits set")
  else if opcode ≥ 8 ∧ ¬fin then .error (.protocolError "fragmented control frame")
  else if ¬masked then .error (.protocolError "client frame not masked")
  else if (3 ≤ opcode ∧ opcode ≤ 7) ∨ (11 ≤ opcode ∧ opcode ≤ 15) then
    .error (.protocolError s!"reserved opcode {opcode.toNat}")
  else .ok ()

/-- The payload length and where the mask starts; `none` while the length bytes are not all there. -/
def payloadLen (buf : List UInt8) (len7 : UInt8) : Except WsError (Option (Nat × Nat)) :=
  if len7 ≤ 125 then .ok (some (len7.toNat, 2))
  else if len7 = 126 then
    if buf.length < 4 then .ok none
    else .ok (some (fromBeBytes (slice buf 2 4), 4))
  else
    if buf.length < 10 then .ok none
    else
      let len := fromBeBytes (slice buf 2 10)
      if len / 2 ^ 63 ≠ 0 then .error (.protocolError "payload length MSB set")
      else .ok (some (len, 10))

/-- Byte `i` of the payload is masked with byte `i & 3` of the key. -/
def unmask (maskKey payload : List UInt8) : List UInt8 :=
  payload.mapIdx fun i byte => byte ^^^ maskKey.getD (i % 4) 0

/-- `try_parse_frame`: the frame at the front of the buffer and its encoded size. -/
def tryParseFrame (buf : List UInt8) : Except WsError (Option (WsFrame × Nat)) :=
  if buf.length < 2 then .ok none
  else
    let b0 := buf.getD 0 0
    let b1 := buf.getD 1 0
    let opcode := b0 &&& 0x0F
    match checkHead b0 b1 with
    | .error e => .error e
    | .ok () =>
        match payloadLen buf (b1 &&& 0x7F) with
        | .error e => .error e
        | .ok none => .ok none
        | .ok (some (len, headerOffset)) =>
            if opcode ≥ 8 ∧ len > 125 then
              .error (.protocolError "control frame payload too large")
            else
              let maskOffset := headerOffset
              let dataOffset := maskOffset + 4
              let total := dataOffset + len
              if buf.length < total then .ok none
              else
                let maskKey := slice buf maskOffset (maskOffset + 4)
                .ok (some ({ opcode, payload := unmask maskKey (slice buf dataOffset total) }, total))

/-! ### Serializing -/

/-- `to_be_bytes` of an unsigned integer of `width` bytes. -/
def toBeBytes : Nat → Nat → List UInt8
  | 0, _ => []
  | width + 1, n => toBeBytes width (n / 256) ++ [UInt8.ofNat (n % 256)]

/-- What `serialize_frame` appends to its buffer: FIN, no RSV bits, no mask. -/
def serializeFrame (opcode : UInt8) (payload : List UInt8) : List UInt8 :=
  let len := payload.length
  let lenBytes :=
    if len ≤ 125 then [UInt8.ofNat len]
    else if len ≤ 65535 then 126 :: toBeBytes 2 len
    else 127 :: toBeBytes 8 len
  (0x80 ||| opcode) :: lenBytes ++ payload

/-- `serialize_close_frame`: a close frame with a status code and a reason. -/
def serializeCloseFrame (code : Nat) (reason : List UInt8) : List UInt8 :=
  serializeFrame opcodeClose (toBeBytes 2 code ++ reason)

/-- `build_masked_frame`, which the source's tests build their frames with. -/
def buildMaskedFrame (opcode : UInt8) (payload maskKey : List UInt8) : List UInt8 :=
  let len := payload.length
  let lenBytes :=
    if len ≤ 125 then [0x80 ||| UInt8.ofNat len]
    else if len ≤ 65535 then (0x80 ||| 126) :: toBeBytes 2 len
    else (0x80 ||| 127) :: toBeBytes 8 len
  (0x80 ||| opcode) :: lenBytes ++ maskKey ++ payload.mapIdx fun i b => b ^^^ maskKey.getD (i % 4) 0

/-! ### The parser with its panics

An index or a slice out of bounds, an overflow of `usize` and `unreachable!()` are `none`.
-/

/-- `buf[lo]`, `buf[lo + 1]` and so on, `n` of them. -/
def indexEach (buf : List UInt8) (lo n : Nat) : Option (List UInt8) :=
  (List.range' lo n).mapM fun i => buf[i]?

def sliceChecked (buf : List UInt8) (lo hi : Nat) : Option (List UInt8) :=
  if lo ≤ hi ∧ hi ≤ buf.length then some (slice buf lo hi) else none

def addChecked (m n : Nat) : Option Nat := if m + n < 2 ^ 64 then some (m + n) else none

def payloadLenChecked (buf : List UInt8) (len7 : UInt8) : Option (Except WsError (Option (Nat × Nat))) :=
  if len7 ≤ 125 then some (.ok (some (len7.toNat, 2)))
  else if len7 = 126 then
    if buf.length < 4 then some (.ok none)
    else (indexEach buf 2 2).map fun bytes => .ok (some (fromBeBytes bytes, 4))
  else if len7 = 127 then
    if buf.length < 10 then some (.ok none)
    else (indexEach buf 2 8).map fun bytes =>
      if fromBeBytes bytes / 2 ^ 63 ≠ 0 then .error (.protocolError "payload length MSB set")
      else .ok (some (fromBeBytes bytes, 10))
  else none

def unmaskChecked (maskKey payload : List UInt8) : Option (List UInt8) :=
  payload.zipIdx.mapM fun x => maskKey[x.2 &&& 3]?.map (x.1 ^^^ ·)

def tryParseFrameChecked (buf : List UInt8) : Option (Except WsError (Option (WsFrame × Nat))) :=
  if buf.length < 2 then some (.ok none)
  else do
    let b0 ← buf[0]?
    let b1 ← buf[1]?
    let opcode := b0 &&& 0x0F
    match checkHead b0 b1 with
    | .error e => return .error e
    | .ok () =>
        match ← payloadLenChecked buf (b1 &&& 0x7F) with
        | .error e => return .error e
        | .ok none => return .ok none
        | .ok (some (len, headerOffset)) =>
            if opcode ≥ 8 ∧ len > 125 then
              return .error (.protocolError "control frame payload too large")
            else
              let maskOffset := headerOffset
              let dataOffset ← addChecked maskOffset 4
              let total ← addChecked dataOffset len
              if buf.length < total then return .ok none
              else
                let maskEnd ← addChecked maskOffset 4
                let maskKey ← sliceChecked buf maskOffset maskEnd
                let payload ← sliceChecked buf dataOffset total
                let payload ← unmaskChecked maskKey payload
                return .ok (some ({ opcode, payload }, total))

/-- The module's own test vector: a masked "Hello" text frame. -/
example : tryParseFrame
    [0x81, 0x85, 0x37, 0xfa, 0x21, 0x3d, 0x7f, 0x9f, 0x4d, 0x51, 0x58]
    = .ok (some ({ opcode := opcodeText, payload := [0x48, 0x65, 0x6c, 0x6c, 0x6f] }, 11)) := by
  decide

end Mahalo.WsParse
