/-
The two serializers of `http_parse`, store by store.

`serialize_response_into` reserves room once and writes a response's head through a
raw pointer up to the date line; `serialize_sse_headers_into` extends its vector
piece by piece.  `buf` is the vector of the response before, with any contents and
any capacity.  Lengths are natural numbers: what is in memory at the same time has a
length that fits `usize`.
-/
import Mahalo.Endpoint.HttpSerialize
import Mahalo.Lib.RawVec

namespace Mahalo.HttpParse.Raw

open RustStd RawVec

variable {A : Type}

/-- `*base.add(pos) = b'\r'; *base.add(pos + 1) = b'\n'; pos += 2` -/
def putCrlf (c : Cursor UInt8) : Option (Cursor UInt8) := do
  let c ← c.put 0 0x0d
  let c ← c.put 1 0x0a
  return c.advance 2

/-- `"HTTP/1.1 "` and the three digits of the status, put together by hand. -/
def putCode (code : Nat) (c : Cursor UInt8) : Option (Cursor UInt8) := do
  let c ← c.put 0 (.ofNat (48 + code / 100))
  let c ← c.put 1 (.ofNat (48 + code / 10 % 10))
  let c ← c.put 2 (.ofNat (48 + code % 10))
  return c.advance 3

def putSpace (c : Cursor UInt8) : Option (Cursor UInt8) := do
  let c ← c.put 0 0x20
  return c.advance 1

/-- `*base.add(pos) = b':'; *base.add(pos + 1) = b' '; pos += 2` -/
def putColon (c : Cursor UInt8) : Option (Cursor UInt8) := do
  let c ← c.put 0 0x3a
  let c ← c.put 1 0x20
  return c.advance 2

def putStatusLine (r : Rendering) (code : Nat) (c : Cursor UInt8) : Option (Cursor UInt8) :=
  if (statusLine code).isEmpty then do
    let c ← c.append (asBytes "HTTP/1.1 ")
    let c ← putCode code c
    let c ← putSpace c
    let c ← c.append (asBytes ((r.canonicalReason code).getD "Unknown"))
    putCrlf c
  else c.append (statusLine code)

/-- One round of the loop over the response headers. -/
def putHeader (c : Cursor UInt8) (h : String × List UInt8) : Option (Cursor UInt8) := do
  let c ← c.append (asBytes h.1)
  let c ← putColon c
  let c ← c.append h.2
  putCrlf c

def putContentLength (conn : Conn A) (c : Cursor UInt8) : Option (Cursor UInt8) :=
  if conn.respHeaders.containsKey "content-length" then some c
  else do
    let c ← c.append (asBytes "content-length: ")
    let c ← c.append (asBytes (toString conn.respBody.length))
    putCrlf c

/-- `connection_hdr` -/
def connectionHdr (keepAlive : Bool) : List UInt8 :=
  if keepAlive then asBytes "connection: keep-alive\r\n" else asBytes "connection: close\r\n"

/-- The unsafe block of `serialize_response_into`, without `set_len`. -/
def putHead (r : Rendering) (conn : Conn A) (keepAlive : Bool) (c : Cursor UInt8) :
    Option (Cursor UInt8) := do
  let c ← putStatusLine r conn.status c
  let c ← conn.respHeaders.iter.foldlM putHeader c
  let c ← putContentLength conn c
  c.append (connectionHdr keepAlive)

/-- `buf.clear()`, and the reservation where the capacity is less than needed. -/
def cleared (a : Allocator UInt8) (buf : Vec UInt8) (needed : Nat) : Vec UInt8 :=
  let buf := buf.clear
  if buf.capacity < needed then buf.reserve a needed else buf

/-- `serialize_response_into`: where its cursor ended, and the vector. -/
def serializeResponseInto (a : Allocator UInt8) (r : Rendering) (date : List UInt8) (conn : Conn A)
    (keepAlive : Bool) (buf : Vec UInt8) : Option (Cursor UInt8 × Vec UInt8) := do
  let buf := cleared a buf (needed conn)
  let c ← putHead r conn keepAlive (.start buf)
  let buf ← Vec.setLen c.mem c.pos
  let buf := buf.extend a date
  let buf := buf.extend a serverHeader
  let buf := buf.extend a (asBytes "\r\n")
  let buf := if conn.method ≠ .head then buf.extend a conn.respBody else buf
  return (c, buf)

/-- `serialize_sse_headers_into` -/
def serializeSseHeadersInto (a : Allocator UInt8) (r : Rendering) (date : List UInt8) (conn : Conn A)
    (buf : Vec UInt8) : Vec UInt8 :=
  let buf := cleared a buf (128 + headerBytes conn.respHeaders)
  let buf :=
    if (statusLine conn.status).isEmpty then
      let buf := buf.extend a (asBytes "HTTP/1.1 ")
      let buf := buf.extend a [.ofNat (48 + conn.status / 100)]
      let buf := buf.extend a [.ofNat (48 + conn.status / 10 % 10)]
      let buf := buf.extend a [.ofNat (48 + conn.status % 10)]
      let buf := buf.extend a [0x20]
      let buf := buf.extend a (asBytes ((r.canonicalReason conn.status).getD "Unknown"))
      buf.extend a (asBytes "\r\n")
    else buf.extend a (statusLine conn.status)
  let buf := conn.respHeaders.iter.foldl (fun buf h =>
    (((buf.extend a (asBytes h.1)).extend a (asBytes ": ")).extend a h.2).extend a (asBytes "\r\n")) buf
  let buf := buf.extend a (asBytes "connection: close\r\n")
  let buf := buf.extend a date
  let buf := buf.extend a serverHeader
  buf.extend a (asBytes "\r\n")

end Mahalo.HttpParse.Raw
