/-
The first half of `http_parse`: one HTTP/1.1 request off the front of a buffer.

The crates `httparse` and `http` are a parameter: the parser of a header block,
and which methods, targets and header names there are.  Lengths are natural
numbers; a buffer is shorter than 2^63, so a sum of a header block's length and a
body's is its `usize` sum wherever the body is in the buffer.
-/
import Mahalo.Core.Conn
import Mahalo.Lib.RustStd

namespace Mahalo.HttpParse

variable {A : Type}

/-- `httparse::Header` -/
structure Header where
  name : String
  value : List UInt8
  deriving DecidableEq, Repr

/-- `httparse::Request`, filled in. -/
structure Request where
  method : Option String
  path : Option String
  version : Option Nat
  headers : List Header
  deriving DecidableEq, Repr

/-- What `Request::parse` returns: `Partial`, `Complete` with the header block's length, or an error. -/
inductive Status where
  | incomplete
  | complete (headerLen : Nat) (req : Request)
  | error
  deriving DecidableEq, Repr

/-- `httparse` with room for 96 headers, and the constructors of `http`. -/
structure HttpLib where
  parse : List UInt8 → Status
  methodFromBytes : String → Option Method
  uriFromStr : String → Option Uri
  headerNameFromBytes : String → Option String

structure ParsedRequest (A : Type) where
  conn : Conn A
  keepAlive : Bool
  bytesConsumed : Nat
  wsKey : Option String

inductive ParseError where
  | invalidRequest
  | bodyTooLarge
  deriving DecidableEq, Repr

structure RawParsed where
  method : Method
  uri : Uri
  headers : List Header
  contentLength : Option Nat
  connectionHeader : Option String
  httpVersion : Option Nat
  headerLen : Nat

/-- One round of the loop of `parse_raw`, which looks for the two headers. -/
def scanHeader (found : Option Nat × Option String) (h : Header) : Option Nat × Option String :=
  let found :=
    if RustStd.eqIgnoreAsciiCase h.name "content-length" then
      match RustStd.fromUtf8 h.value with
      | some s => (RustStd.parseUsize (RustStd.trim s.toList), found.2)
      | none => found
    else found
  if RustStd.eqIgnoreAsciiCase h.name "connection" then (found.1, RustStd.fromUtf8 h.value) else found

def parseRaw (lib : HttpLib) (buf : List UInt8) : Except ParseError (Option RawParsed) :=
  match lib.parse buf with
  | .incomplete => .ok none
  | .error => .error .invalidRequest
  | .complete headerLen req =>
      match req.method.bind lib.methodFromBytes with
      | none => .error .invalidRequest
      | some method =>
          match req.path.bind lib.uriFromStr with
          | none => .error .invalidRequest
          | some uri =>
              let (contentLength, connectionHeader) := req.headers.foldl scanHeader (none, none)
              .ok (some {
                method, uri, headers := req.headers, contentLength, connectionHeader
                httpVersion := req.version, headerLen })

/-- `fast_header_name`, which looks at the length first. -/
def fastHeaderName (name : String) : Option String :=
  ["host", "accept", "cookie", "connection", "user-agent", "content-type", "content-length",
    "accept-encoding", "accept-language"].find? fun known => RustStd.eqIgnoreAsciiCase name known

/-- `append_headers`, and `build_header_map` where the map is empty. -/
def appendHeaders (lib : HttpLib) : HeaderMap → List Header → Except ParseError HeaderMap
  | map, [] => .ok map
  | map, h :: rest =>
      match (fastHeaderName h.name).or (lib.headerNameFromBytes h.name) with
      | some name => appendHeaders lib (map.append name h.value) rest
      | none => .error .invalidRequest

def buildHeaderMap (lib : HttpLib) (headers : List Header) : Except ParseError HeaderMap :=
  appendHeaders lib [] headers

/-- The body's length: none for GET, HEAD and DELETE. -/
def RawParsed.bodyLen (raw : RawParsed) : Nat :=
  match raw.method with
  | .get | .head | .delete => 0
  | _ => raw.contentLength.getD 0

/-- The connection stays open after this request. -/
def RawParsed.keepAlive (raw : RawParsed) : Bool :=
  let default := raw.httpVersion.getD 1 ≥ 1
  match raw.connectionHeader with
  | some v =>
      if RustStd.eqIgnoreAsciiCase v "close" then false
      else if RustStd.eqIgnoreAsciiCase v "keep-alive" then true
      else default
  | none => default

/-- `finalize_body_and_keepalive` -/
def finalizeBodyAndKeepalive (raw : RawParsed) (buf : List UInt8) (bodyLimit : Nat) :
    Except ParseError (Option (List UInt8 × Bool × Nat)) :=
  if raw.bodyLen > bodyLimit then .error .bodyTooLarge
  else
    let total := raw.headerLen + raw.bodyLen
    if buf.length < total then .ok none
    else .ok (some ((buf.take total).drop raw.headerLen, raw.keepAlive, total))

/-- `HeaderValue::to_str`: visible ASCII, spaces and tabs. -/
def toStr (value : List UInt8) : Option String :=
  if value.all fun b => (32 ≤ b && b < 127) || b == 9 then RustStd.fromUtf8 value else none

/-- One round of the loop of `detect_ws_key`. -/
def scanUpgrade (found : Bool × Option String) (h : Header) : Bool × Option String :=
  if RustStd.eqIgnoreAsciiCase h.name "upgrade" then
    match RustStd.fromUtf8 h.value with
    | some v => (found.1 || RustStd.eqIgnoreAsciiCase v "websocket", found.2)
    | none => found
  else if RustStd.eqIgnoreAsciiCase h.name "sec-websocket-key" then
    match RustStd.fromUtf8 h.value with
    | some v => (found.1, some (String.ofList (RustStd.trim v.toList)))
    | none => found
  else found

def detectWsKey (method : Method) (headers : List Header) (headerMap : HeaderMap) : Option String :=
  if method ≠ .get then none
  else
    match headers.foldl scanUpgrade (false, none) with
    | (true, some key) =>
        let versionOk := ((headerMap.get "sec-websocket-version").bind toStr).any fun v =>
          RustStd.trim v.toList == "13".toList
        if versionOk then some key else none
    | _ => none

def tryParseRequest (lib : HttpLib) (buf : List UInt8) (bodyLimit : Nat) (peerAddr : String) :
    Except ParseError (Option (ParsedRequest A)) :=
  match parseRaw lib buf with
  | .error e => .error e
  | .ok none => .ok none
  | .ok (some raw) =>
      match finalizeBodyAndKeepalive raw buf bodyLimit with
      | .error e => .error e
      | .ok none => .ok none
      | .ok (some (body, keepAlive, total)) =>
          match buildHeaderMap lib raw.headers with
          | .error e => .error e
          | .ok headerMap =>
              let conn : Conn A :=
                { Conn.new raw.method raw.uri with
                  headers := headerMap, body, remoteAddr := some peerAddr }
              .ok (some {
                conn, keepAlive, bytesConsumed := total
                wsKey := detectWsKey conn.method raw.headers conn.headers })

/-! ### Into a recycled `Conn` -/

/-- `append_headers` on the map it is given, which keeps what came before a bad name. -/
def appendHeadersTo (lib : HttpLib) : HeaderMap → List Header → Except ParseError Unit × HeaderMap
  | map, [] => (.ok (), map)
  | map, h :: rest =>
      match (fastHeaderName h.name).or (lib.headerNameFromBytes h.name) with
      | some name => appendHeadersTo lib (map.append name h.value) rest
      | none => (.error .invalidRequest, map)

structure ParsedIntoResult where
  keepAlive : Bool
  bytesConsumed : Nat
  wsKey : Option String
  deriving DecidableEq, Repr

variable {K : Type} {β : K → Type} {R : Type}

/-- `try_parse_into_conn`: its result, and the `Conn` it was lent. -/
def tryParseIntoConn (lib : HttpLib) (conn : RuntimeConn (Assigns β) R) (buf : List UInt8)
    (bodyLimit : Nat) (peerAddr : String) :
    Except ParseError (Option ParsedIntoResult) × RuntimeConn (Assigns β) R :=
  match parseRaw lib buf with
  | .error e => (.error e, conn)
  | .ok none => (.ok none, conn)
  | .ok (some raw) =>
      match finalizeBodyAndKeepalive raw buf bodyLimit with
      | .error e => (.error e, conn)
      | .ok none => (.ok none, conn)
      | .ok (some (body, keepAlive, total)) =>
          let conn := conn.reset raw.method raw.uri
          match appendHeadersTo lib conn.headers raw.headers with
          | (.error e, headers) => (.error e, { conn with headers })
          | (.ok (), headers) =>
              let conn := { conn with headers, body, remoteAddr := some peerAddr }
              (.ok (some {
                keepAlive, bytesConsumed := total
                wsKey := detectWsKey conn.method raw.headers conn.headers }), conn)

end Mahalo.HttpParse
