/-
The router of the store: its pipelines, and which of them stand before which routes.

What a route runs in the end (a page, a JSON document, the price stream, a controller) is a
parameter, so whatever is said of the routes is said of any.  A plug that looks at the clock
waits for an answer, and a `Clock` reads the time off it.  The clock is not before the epoch,
where the plug would panic.
-/
import Mahalo.Router.Router
import Mahalo.TestApp.Store

namespace Mahalo.TestApp

open Interactive Router
open RustStd (asBytes)

/-- The keys of the assigns: the two of the pipelines, and whatever a handler uses. -/
inductive AssignKey (K : Type) where
  | requestId
  | currentUser
  | other (k : K)
  deriving DecidableEq

def AssignKey.Value {K : Type} (β : K → Type) : AssignKey K → Type
  | .requestId => String
  | .currentUser => String
  | .other k => β k

/-- `rand_id`: the nanoseconds since the epoch as a `u64`, and the seconds shifted.  Nothing comes of a clock
before the epoch. -/
def randId (sinceEpoch : Option Nat) : Option Nat :=
  sinceEpoch.map fun nanos => (nanos % 2 ^ 64) ^^^ (nanos / 10 ^ 9 * 2 ^ 32 % 2 ^ 64)

/-- A clock that is not before the epoch, in any answer. -/
structure Clock (Ω : Type) where
  sinceEpoch : Ω → Option Nat
  inTime : ∀ ω, (sinceEpoch ω).isSome = true

theorem Clock.randId_isSome {Ω : Type} (clock : Clock Ω) (ω : Ω) : (randId (clock.sinceEpoch ω)).isSome = true := by
  unfold randId
  rw [Option.isSome_map]
  exact clock.inTime ω

/-- `format!("req-{:x}", rand_id())` -/
def Clock.requestId {Ω : Type} (clock : Clock Ω) (ω : Ω) : String :=
  "req-" ++ String.ofList (Nat.toDigits 16 ((randId (clock.sinceEpoch ω)).get (clock.randId_isSome ω)))

/-- What the routes run. -/
structure Handlers (A Ω : Type) where
  renderHome : Plug A Ω
  renderMenu : Plug A Ω
  renderOrder : Plug A Ω
  renderOrderStatus : Plug A Ω
  renderAbout : Plug A Ω
  renderFlavor : Plug A Ω
  menu : Plug A Ω
  hours : Plug A Ω
  about : Plug A Ω
  toppings : Plug A Ω
  specials : Plug A Ω
  priceStream : Plug A Ω
  flavorController : Controller A Ω
  orderController : Controller A Ω

def missingKey : List UInt8 := asBytes "\x7b\"error\":\"Missing x-api-key header\"\x7d"

section

variable {A Ω : Type}

def browserPipeline : Pipeline A Ω :=
  (Pipeline.new "browser").plug
    (.plugFn fun conn => pure (conn.putRespHeader "content-type" "text/html; charset=utf-8"))

def health : Plug A Ω :=
  .plugFn fun conn => pure
    (((conn.putStatus statusOk).putRespHeader "content-type" "application/json").putRespBody
      (asBytes "\x7b\"status\":\"healthy\",\"store\":\"open\"\x7d"))

end

variable {K : Type} [DecidableEq K] {β : K → Type} {Ω : Type} (clock : Clock Ω)

def apiPipeline : Pipeline (Assigns (AssignKey.Value β)) Ω :=
  ((Pipeline.new "api").plug
    (.plugFn fun conn => pure (conn.putRespHeader "content-type" "application/json"))).plug
    (.plugFn fun conn => .emit () fun ω => .ret (conn.assign .requestId (clock.requestId ω)))

def authPipeline : Pipeline (Assigns (AssignKey.Value β)) Ω :=
  (Pipeline.new "auth").plug (.plugFn fun conn =>
    match conn.headers.get "x-api-key" with
    | some _ => pure (conn.assign .currentUser "authenticated-user")
    | none => pure ((conn.putStatus statusUnauthorized).putRespBody missingKey).halt)

/-- `build_router` -/
def routerCalls (h : Handlers (Assigns (AssignKey.Value β)) Ω) :
    List (BuilderCall (Assigns (AssignKey.Value β)) Ω) := [
  .pipeline browserPipeline,
  .pipeline (apiPipeline clock),
  .pipeline authPipeline,
  .scope "/" ["browser"] [
    .route .get "/" none h.renderHome,
    .route .get "/menu" none h.renderMenu,
    .route .get "/order" none h.renderOrder,
    .route .get "/orders/:id" none h.renderOrderStatus,
    .route .get "/about" none h.renderAbout,
    .route .get "/flavors/:id" none h.renderFlavor],
  .route .get "/health" health none,
  .scope "/api" ["api"] [
    .route .get "/menu" none h.menu,
    .route .get "/hours" none h.hours,
    .route .get "/about" none h.about,
    .resources "/flavors" h.flavorController,
    .route .get "/toppings" none h.toppings,
    .route .get "/specials" none h.specials,
    .route .get "/prices/stream" none h.priceStream],
  .scope "/api" ["api", "auth"] [
    .resources "/orders" h.orderController]]

def buildRouter (h : Handlers (Assigns (AssignKey.Value β)) Ω) :
    MahaloRouter (Assigns (AssignKey.Value β)) Ω :=
  build (routerCalls clock h)

end Mahalo.TestApp
