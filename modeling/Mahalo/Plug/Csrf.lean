/-
`mahalo-plug`: protection against requests that other sites forge.

A safe request is given a token, 32 random bytes with their MAC under the plug's secret,
and a request that is not safe has to bring such a token back.  What the plug reads of
`base64`, the MAC of `hmac` with `sha2`, and the random bytes in an answer from outside
are parameters.
-/
import Mahalo.Core.Plug
import Mahalo.Endpoint.HttpParse
import Mahalo.Lib.Base64

namespace Mahalo

open Interactive RustStd

/-- `[u8; 32]` -/
abbrev Bytes32 := { bytes : List UInt8 // bytes.length = 32 }

/-- `StatusCode::FORBIDDEN` -/
def statusForbidden : Nat := 403

structure CsrfProtection where
  secret : List UInt8
  deriving DecidableEq, Repr

/-- `STANDARD.decode`, and `Hmac::<Sha256>` of a key and a message. -/
structure CsrfLib where
  decode : List UInt8 → Option (List UInt8)
  hmacSha256 : List UInt8 → List UInt8 → Bytes32

/-- `CsrfToken`: a key of the assigns with texts for its values. -/
structure CsrfToken {K : Type} (β : K → Type) where
  key : K
  value : β key = String

namespace CsrfProtection

variable (lib : CsrfLib) (csrf : CsrfProtection)

/-- `STANDARD.encode` -/
def base64Text (bytes : List UInt8) : String :=
  String.ofList ((Base64.encode bytes).map fun b => Char.ofNat b.toNat)

/-- `generate_token`, with the random bytes. -/
def generateToken (randomBytes : Bytes32) : String :=
  base64Text (randomBytes.val ++ (lib.hmacSha256 csrf.secret randomBytes.val).val)

def validateToken (token : String) : Bool :=
  match lib.decode (asBytes token) with
  | none => false
  | some decoded =>
      if decoded.length ≠ 64 then false
      else
        let (randomBytes, providedMac) := decoded.splitAt 32
        (lib.hmacSha256 csrf.secret randomBytes).val == providedMac

def isSafeMethod (method : Method) : Bool := method ∈ [Method.get, .head, .options]

section

variable {K : Type} [DecidableEq K] {β : K → Type} {Ω : Type} (tokenKey : CsrfToken β) (fill : Ω → Bytes32)

/-- `conn.assign::<CsrfToken>(token)` -/
def assignToken (conn : Conn (Assigns β)) (token : String) : Conn (Assigns β) :=
  conn.assign tokenKey.key (cast tokenKey.value.symm token)

def forbidden {A : Type} (conn : Conn A) : Conn A :=
  ((conn.putStatus statusForbidden).putRespBody (asBytes "Forbidden")).halt

def call (conn : Conn (Assigns β)) : Async Ω (Conn (Assigns β)) :=
  if isSafeMethod conn.method then do
    let randomBytes ← Prog.perform ()
    let token := csrf.generateToken lib (fill randomBytes)
    return (assignToken tokenKey conn token).putRespHeader "x-csrf-token" token
  else
    match (conn.headers.get "x-csrf-token").bind HttpParse.toStr with
    | none => pure (forbidden conn)
    | some t =>
        if !csrf.validateToken lib t then pure (forbidden conn)
        else pure (assignToken tokenKey conn t)

def plug : Plug (Assigns β) Ω := { call := csrf.call lib tokenKey fill }

end

end CsrfProtection

end Mahalo
