/-
`mahalo-plug`: the plug that tags answers.

An answer with status 200 and a body gets the tag of its body, and becomes a 304 if it is
what the client says it has.
-/
import Mahalo.Plug.StaticFiles

namespace Mahalo.ETag

variable {A : Type} (blake3 : List UInt8 → List UInt8)

def call (conn : Conn A) : Conn A :=
  if conn.status ≠ statusOk ∨ conn.respBody = [] then conn
  else
    let etagValue := StaticFiles.etagValue blake3 conn.respBody
    let ifNoneMatch := (conn.headers.get "if-none-match").bind HttpParse.toStr
    let conn := conn.putRespHeader "etag" etagValue
    if ifNoneMatch = some etagValue then
      ((conn.putStatus statusNotModified).putRespBody []).halt
    else conn

def plug {Ω : Type} : Plug A Ω := { call := fun conn => pure (call blake3 conn) }

end Mahalo.ETag
