/-
The second half of `http_parse`: responses as bytes.

The reason phrases of `http`, SHA-1 with Base64, and the date line of the moment
are parameters.
-/
import Mahalo.Core.Conn
import Mahalo.Lib.RustStd

namespace Mahalo.HttpParse

open RustStd

variable {A : Type}

/-- What `http`, `sha1` and `base64` contribute to a response. -/
structure Rendering where
  canonicalReason : Nat → Option String
  base64Sha1 : List UInt8 → String

/-- `SERVER_HEADER` -/
def serverHeader : List UInt8 := asBytes "server: mahalo\r\n"

/-- `RESPONSE_400` and `RESPONSE_413` -/
def response400 : List UInt8 := asBytes
  "HTTP/1.1 400 Bad Request\r\ncontent-length: 11\r\nconnection: close\r\n\r\nBad Request"
def response413 : List UInt8 := asBytes
  "HTTP/1.1 413 Payload Too Large\r\ncontent-length: 17\r\nconnection: close\r\n\r\nPayload Too Large"

/-- `status_line`, empty for a code that is not in its table. -/
def statusLine : Nat → List UInt8
  | 200 => asBytes "HTTP/1.1 200 OK\r\n"
  | 201 => asBytes "HTTP/1.1 201 Created\r\n"
  | 204 => asBytes "HTTP/1.1 204 No Content\r\n"
  | 301 => asBytes "HTTP/1.1 301 Moved Permanently\r\n"
  | 302 => asBytes "HTTP/1.1 302 Found\r\n"
  | 304 => asBytes "HTTP/1.1 304 Not Modified\r\n"
  | 400 => asBytes "HTTP/1.1 400 Bad Request\r\n"
  | 401 => asBytes "HTTP/1.1 401 Unauthorized\r\n"
  | 403 => asBytes "HTTP/1.1 403 Forbidden\r\n"
  | 404 => asBytes "HTTP/1.1 404 Not Found\r\n"
  | 405 => asBytes "HTTP/1.1 405 Method Not Allowed\r\n"
  | 413 => asBytes "HTTP/1.1 413 Payload Too Large\r\n"
  | 500 => asBytes "HTTP/1.1 500 Internal Server Error\r\n"
  | 503 => asBytes "HTTP/1.1 503 Service Unavailable\r\n"
  | _ => []

/-- The status line, put together by hand where the table has none. -/
def writeStatusLine (r : Rendering) (code : Nat) : List UInt8 :=
  if (statusLine code).isEmpty then
    asBytes "HTTP/1.1 " ++
      [.ofNat (48 + code / 100), .ofNat (48 + code / 10 % 10), .ofNat (48 + code % 10), 0x20] ++
      asBytes ((r.canonicalReason code).getD "Unknown") ++ asBytes "\r\n"
  else statusLine code

/-- The loop over the response headers. -/
def writeHeaders (headers : HeaderMap) : List UInt8 :=
  headers.iter.flatMap fun (name, value) => asBytes name ++ asBytes ": " ++ value ++ asBytes "\r\n"

/-- `serialize_response_into`; `date` is what `write_date_header` writes. -/
def serializeResponseInto (r : Rendering) (date : List UInt8) (conn : Conn A) (keepAlive : Bool) :
    List UInt8 :=
  writeStatusLine r conn.status ++ writeHeaders conn.respHeaders ++
    (if conn.respHeaders.containsKey "content-length" then []
      else asBytes "content-length: " ++ asBytes (toString conn.respBody.length) ++ asBytes "\r\n") ++
    (if keepAlive then asBytes "connection: keep-alive\r\n" else asBytes "connection: close\r\n") ++
    date ++ serverHeader ++ asBytes "\r\n" ++ (if conn.method ≠ .head then conn.respBody else [])

/-- The part that is written through a raw pointer, before the date line. -/
def rawPart (r : Rendering) (conn : Conn A) (keepAlive : Bool) : List UInt8 :=
  writeStatusLine r conn.status ++ writeHeaders conn.respHeaders ++
    (if conn.respHeaders.containsKey "content-length" then []
      else asBytes "content-length: " ++ asBytes (toString conn.respBody.length) ++ asBytes "\r\n") ++
    (if keepAlive then asBytes "connection: keep-alive\r\n" else asBytes "connection: close\r\n")

/-- `header_bytes` -/
def headerBytes (headers : HeaderMap) : Nat :=
  headers.iter.foldl (fun n h => n + ((asBytes h.1).length + 2 + h.2.length + 2)) 0

/-- `needed`: the capacity that is reserved for it. -/
def needed (conn : Conn A) : Nat := 128 + headerBytes conn.respHeaders + conn.respBody.length

/-- `serialize_sse_headers_into` -/
def serializeSseHeadersInto (r : Rendering) (date : List UInt8) (conn : Conn A) : List UInt8 :=
  writeStatusLine r conn.status ++ writeHeaders conn.respHeaders ++ asBytes "connection: close\r\n" ++
    date ++ serverHeader ++ asBytes "\r\n"

/-- `serialize_ws_accept_response` -/
def serializeWsAcceptResponse (r : Rendering) (wsKey : String) : List UInt8 :=
  asBytes "HTTP/1.1 101 Switching Protocols\r\n" ++ asBytes "Upgrade: websocket\r\n" ++
    asBytes "Connection: Upgrade\r\n" ++ asBytes "Sec-WebSocket-Accept: " ++
    asBytes (r.base64Sha1 (asBytes wsKey ++ asBytes "258EAFA5-E914-47DA-95CA-C5AB0DC85B11")) ++
    asBytes "\r\n\r\n"

end Mahalo.HttpParse
