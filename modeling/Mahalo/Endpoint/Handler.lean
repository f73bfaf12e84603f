/-
`execute_request`: a request through the router and the plugs behind it.
-/
import Mahalo.Lib.RustStd
import Mahalo.Router.Router

namespace Mahalo.Endpoint

open Interactive Router

/-- What an endpoint was built from. -/
structure App (A Ω : Type) where
  matchit : Matchit
  router : MahaloRouter A Ω
  errorHandler : Option (Nat → Conn A → Conn A)
  afterPlugs : List (Plug A Ω)

variable {A Ω : Type}

/-- The answer to a request that no route matches. -/
def App.notFound (app : App A Ω) (conn : Conn A) : Conn A :=
  match app.errorHandler with
  | some handler => handler statusNotFound (conn.putStatus statusNotFound)
  | none => (conn.putStatus statusNotFound).putRespBody (RustStd.asBytes "Not Found")

/-- `execute_request`.  The loop over the after-plugs is that of a pipeline. -/
def App.executeRequest (app : App A Ω) (conn : Conn A) : Except Panic (Run A Ω (Conn A)) := do
  let resolved ← app.router.resolve app.matchit conn.method conn.uri.path
  let routed : Run A Ω (Conn A) :=
    match resolved with
    | some resolved => resolved.execute conn
    | none => pure (app.notFound conn)
  return routed >>= fun conn => await (Pipeline.executeEach app.afterPlugs conn)

end Mahalo.Endpoint
