/-
Which requests of the store need an API key.

The orders are behind the pipeline `auth`, and no other route is.  A request is given its
route by its path, and the paths of the orders match no other pattern of the router, so it
can be read off the path whether a request needs a key, whatever the method.
-/
import Mahalo.Proofs.Router.Compile
import Mahalo.Proofs.Router.Gates
import Mahalo.TestApp.Router

namespace Mahalo.TestApp

open Interactive Router Endpoint Patterns
open RustStd (asBytes)

/-! ### The routes -/

/-- The paths that are given to `matchit`, and the pipelines in front of them, but for the orders. -/
def publicRoutes : List (String × List String) := [
  ("/", ["browser"]), ("/menu", ["browser"]), ("/order", ["browser"]), ("/orders/\x7bid\x7d", ["browser"]),
  ("/about", ["browser"]), ("/flavors/\x7bid\x7d", ["browser"]), ("/health", []), ("/api/menu", ["api"]),
  ("/api/hours", ["api"]), ("/api/about", ["api"]), ("/api/flavors", ["api"]),
  ("/api/flavors/\x7bid\x7d", ["api"]), ("/api/flavors", ["api"]), ("/api/flavors/\x7bid\x7d", ["api"]),
  ("/api/flavors/\x7bid\x7d", ["api"]), ("/api/toppings", ["api"]), ("/api/specials", ["api"]),
  ("/api/prices/stream", ["api"])]

def ordersPattern : String := "/api/orders"
def orderPattern : String := "/api/orders/\x7bid\x7d"

def orderRoutes : List (String × List String) :=
  [ordersPattern, orderPattern, ordersPattern, orderPattern, orderPattern].map fun p => (p, ["api", "auth"])

/-- The path of a request for the orders, or for one of them. -/
def OrderPath (path : String) : Prop :=
  (matchPattern ordersPattern path).isSome ∨ (matchPattern orderPattern path).isSome

/-- What a route is found by, and what stands in front of it. -/
def summary {A Ω : Type} (route : Route A Ω) : String × List String := (route.matchitPath, route.pipelineNames)

/-- The routes of a scope, by their paths. -/
def inScope (scopePrefix : String) (names : List String) (paths : List String) : List (String × List String) :=
  paths.map fun path => (buildMatchitPath (normalizePrefix scopePrefix) path, names)

section

variable {K : Type} [DecidableEq K] {β : K → Type} {Ω : Type} (clock : Clock Ω)
  (h : Handlers (Assigns (AssignKey.Value β)) Ω)

/-- All that a request can be given to but the orders. -/
def publicHandlers {A : Type} (h : Handlers A Ω) : List (Handler A Ω) :=
  [h.renderHome, h.renderMenu, h.renderOrder, h.renderOrderStatus, h.renderAbout, h.renderFlavor, health,
    h.menu, h.hours, h.about].map .plug
  ++ ["index", "show", "create", "update", "delete"].map (.controller h.flavorController)
  ++ [h.toppings, h.specials, h.priceStream].map .plug

def orderHandlers {A : Type} (h : Handlers A Ω) : List (Handler A Ω) :=
  ["index", "show", "create", "update", "delete"].map (.controller h.orderController)

theorem public_routes : ((buildRouter clock h).routes.take 18).map summary = publicRoutes ∧
    ((buildRouter clock h).routes.take 18).map (·.handler) = publicHandlers h := by
  refine ⟨?_, rfl⟩
  have hscopes : ((buildRouter clock h).routes.take 18).map summary
      = inScope "/" ["browser"] ["/", "/menu", "/order", "/orders/:id", "/about", "/flavors/:id"]
        ++ [(colonToBrace "/health", [])]
        ++ inScope "/api" ["api"] ["/menu", "/hours", "/about", "/flavors", "/flavors" ++ "/:id", "/flavors",
          "/flavors" ++ "/:id", "/flavors" ++ "/:id", "/toppings", "/specials", "/prices/stream"] := rfl
  rw [hscopes]
  decide +kernel

theorem order_routes : ((buildRouter clock h).routes.drop 18).map summary = orderRoutes ∧
    ((buildRouter clock h).routes.drop 18).map (·.handler) = orderHandlers h := by
  refine ⟨?_, rfl⟩
  have hscope : ((buildRouter clock h).routes.drop 18).map summary
      = inScope "/api" ["api", "auth"] ["/orders", "/orders" ++ "/:id", "/orders", "/orders" ++ "/:id",
          "/orders" ++ "/:id"] := rfl
  rw [hscope]
  decide +kernel

/-- Every path of the store is plain. -/
theorem routes_plain : ∀ route ∈ (buildRouter clock h).routes, Plain route.matchitPath := by
  have hpublic : ∀ entry ∈ publicRoutes, Plain entry.1 := by decide +kernel
  have horders : ∀ entry ∈ orderRoutes, Plain entry.1 := by decide +kernel
  rw [← (public_routes clock h).1] at hpublic
  rw [← (order_routes clock h).1] at horders
  intro route hroute
  rw [← List.take_append_drop 18 (buildRouter clock h).routes] at hroute
  rcases List.mem_append.mp hroute with hroute | hroute
  · exact hpublic _ (List.mem_map_of_mem (f := summary) hroute)
  · exact horders _ (List.mem_map_of_mem (f := summary) hroute)

/-- The pipelines registered for some names. -/
def piped (names : List String) : List (Pipeline (Assigns (AssignKey.Value β)) Ω) :=
  names.filterMap fun name => (buildRouter clock h).pipelines.lookup name

theorem piped_eq : piped clock h ["browser"] = [browserPipeline] ∧ piped clock h [] = [] ∧
    piped clock h ["api"] = [apiPipeline clock] ∧
    piped clock h ["api", "auth"] = [apiPipeline clock, authPipeline] := ⟨rfl, rfl, rfl, rfl⟩

end

/-! ### The paths of the orders -/

theorem patterns_eq : patternOf ordersPattern = [.lit [], .lit "api".toList, .lit "orders".toList] ∧
    patternOf orderPattern = [.lit [], .lit "api".toList, .lit "orders".toList, .param "id"] := by
  decide +kernel

/-- A pattern that begins like those of the orders matches only what does. -/
theorem orders_front {ps : List (Piece String (List Char))} {texts : List (List Char)} {ok : List Char → Bool}
    (h : (matchPieces ok (.lit [] :: .lit "api".toList :: .lit "orders".toList :: ps) texts).isSome) :
    ∃ rest, texts = [[], "api".toList, "orders".toList] ++ rest := by
  obtain ⟨bound, hbound⟩ := Option.isSome_iff_exists.mp h
  obtain ⟨behindRoot, rfl, hapi⟩ := matchPieces_lit hbound
  obtain ⟨behindApi, rfl, horders⟩ := matchPieces_lit hapi
  obtain ⟨rest, rfl, -⟩ := matchPieces_lit horders
  exact ⟨rest, rfl⟩

theorem orderPath_pieces {path : String} (h : OrderPath path) :
    ∃ rest, pieces path = [[], "api".toList, "orders".toList] ++ rest := by
  obtain ⟨horders, horder⟩ := patterns_eq
  unfold OrderPath matchPattern at h
  rw [horders, horder, Option.isSome_map, Option.isSome_map] at h
  exact h.elim orders_front orders_front

/-- No other route is found at the path of an order. -/
theorem public_not_order {entry : String × List String} (hentry : entry ∈ publicRoutes) {path : String}
    (hmatch : (matchPattern entry.1 path).isSome) : ¬OrderPath path := by
  intro horder
  obtain ⟨rest, hpieces⟩ := orderPath_pieces horder
  have hclash : ∀ entry ∈ publicRoutes,
      clashes (patternOf entry.1) [[], "api".toList, "orders".toList] = true := by decide +kernel
  unfold matchPattern at hmatch
  rw [hpieces, matchPieces_clashes (hclash entry hentry)] at hmatch
  cases hmatch

/-! ### What the pipelines leave -/

section

variable {A Ω : Type} {conn c : Conn A}

/-- The request of a `Conn` is that of another. -/
structure SameRequest (conn c : Conn A) : Prop where
  method : c.method = conn.method
  uri : c.uri = conn.uri
  headers : c.headers = conn.headers
  body : c.body = conn.body
  remoteAddr : c.remoteAddr = conn.remoteAddr

theorem SameRequest.refl (conn : Conn A) : SameRequest conn conn := ⟨rfl, rfl, rfl, rfl, rfl⟩

theorem SameRequest.putRespHeader (h : SameRequest conn c) (key value : String) :
    SameRequest conn (c.putRespHeader key value) ∧ (c.putRespHeader key value).halted = c.halted ∧
      (c.putRespHeader key value).pathParams = c.pathParams := by
  unfold Conn.putRespHeader
  cases headerValue value with
  | none => exact ⟨h, rfl, rfl⟩
  | some v => exact ⟨⟨h.method, h.uri, h.headers, h.body, h.remoteAddr⟩, rfl, rfl⟩

theorem executeEach_cons (hlive : conn.halted = false) (plug : Plug A Ω) (rest : List (Plug A Ω)) :
    Pipeline.executeEach (plug :: rest) conn = plug.run conn >>= Pipeline.executeEach rest := by
  rw [Pipeline.executeEach, hlive, if_neg Bool.false_ne_true]

theorem plugFn_run (f : Conn A → Async Ω (Conn A)) (conn : Conn A) : (Plug.plugFn f).run conn = f conn := rfl

theorem browser_leaves (hlive : conn.halted = false) :
    ((browserPipeline : Pipeline A Ω).execute conn).Returns fun c => c.halted = false ∧ SameRequest conn c := by
  obtain ⟨hsame, hhalted, -⟩ :=
    (SameRequest.refl conn).putRespHeader "content-type" "text/html; charset=utf-8"
  have hrun : (browserPipeline : Pipeline A Ω).execute conn
      = pure (conn.putRespHeader "content-type" "text/html; charset=utf-8") := executeEach_cons hlive _ _
  rw [hrun]
  exact ⟨hhalted.trans hlive, hsame⟩

end

section

variable {K : Type} [DecidableEq K] {β : K → Type} {Ω : Type} (clock : Clock Ω)
  {conn c : Conn (Assigns (AssignKey.Value β))}

def contentType : List UInt8 := asBytes "application/json"

/-- A request of the API, as its pipeline leaves it. -/
structure Prepared (conn c : Conn (Assigns (AssignKey.Value β))) : Prop extends SameRequest conn c where
  halted : c.halted = false
  pathParams : c.pathParams = conn.pathParams
  json : c.respHeaders.get "content-type" = some contentType
  requestId : ∃ ω, c.getAssign .requestId = some (clock.requestId ω)

/-- A request that `auth` has let through. -/
structure Authenticated (conn c : Conn (Assigns (AssignKey.Value β))) : Prop extends Prepared clock conn c where
  currentUser : c.getAssign .currentUser = some "authenticated-user"

/-- The answer to a request without a key. -/
structure Refused (conn c : Conn (Assigns (AssignKey.Value β))) : Prop extends SameRequest conn c where
  status : c.status = statusUnauthorized
  answer : c.respBody = missingKey
  json : c.respHeaders.get "content-type" = some contentType

theorem api_leaves (hlive : conn.halted = false) :
    ((apiPipeline clock).execute conn).Returns (Prepared clock conn) := by
  obtain ⟨hsame, hhalted, hparams⟩ := (SameRequest.refl conn).putRespHeader "content-type" "application/json"
  have hvalue : headerValue "application/json" = some contentType := by decide +kernel
  have hjson : (conn.putRespHeader "content-type" "application/json").respHeaders.get "content-type"
      = some contentType := by
    unfold Conn.putRespHeader
    rw [hvalue]
    exact (HeaderMap.get_insert _ _ _ _).trans (if_pos rfl)
  generalize hc : conn.putRespHeader "content-type" "application/json" = c at hsame hhalted hparams hjson
  have hrun : (apiPipeline clock).execute conn
      = (.emit () fun ω => .ret (c.assign .requestId (clock.requestId ω))) := by
    rw [← hc] at hhalted ⊢
    refine (executeEach_cons hlive _ _).trans ?_
    exact executeEach_cons (hhalted.trans hlive) _ _
  rw [hrun]
  intro ω
  exact ⟨⟨hsame.method, hsame.uri, hsame.headers, hsame.body, hsame.remoteAddr⟩, hhalted.trans hlive, hparams,
    hjson, ω, Conn.getAssign_assign ..⟩

theorem auth_admits (hc : Prepared clock conn c) (hkey : conn.headers.get "x-api-key" ≠ none) :
    ((authPipeline : Pipeline _ Ω).execute c).Returns (Authenticated clock conn) := by
  obtain ⟨key, hkey⟩ := Option.ne_none_iff_exists'.mp hkey
  rw [← hc.headers] at hkey
  obtain ⟨ω, hid⟩ := hc.requestId
  have hrun : (authPipeline : Pipeline _ Ω).execute c = pure (c.assign .currentUser "authenticated-user") := by
    refine (executeEach_cons hc.halted _ _).trans ?_
    rw [plugFn_run]
    simp only [hkey]
    rfl
  have hother : (.requestId : AssignKey K) ≠ .currentUser := nofun
  rw [hrun]
  exact ⟨⟨⟨hc.method, hc.uri, hc.headers, hc.body, hc.remoteAddr⟩, hc.halted, hc.pathParams, hc.json, ω,
    (Conn.getAssign_assign_ne hother _ _).trans hid⟩, Conn.getAssign_assign ..⟩

theorem auth_refuses (hc : Prepared clock conn c) (hkey : conn.headers.get "x-api-key" = none) :
    ((authPipeline : Pipeline _ Ω).execute c).Returns fun c => c.halted = true ∧ Refused conn c := by
  rw [← hc.headers] at hkey
  have hrun : (authPipeline : Pipeline _ Ω).execute c
      = pure ((c.putStatus statusUnauthorized).putRespBody missingKey).halt := by
    refine (executeEach_cons hc.halted _ _).trans ?_
    rw [plugFn_run]
    simp only [hkey]
    rfl
  rw [hrun]
  exact ⟨rfl, ⟨hc.method, hc.uri, hc.headers, hc.body, hc.remoteAddr⟩, rfl, rfl, hc.json⟩

/-! ### A request -/

variable (h : Handlers (Assigns (AssignKey.Value β)) Ω)

/-- The store as an endpoint, with any error handler and after-plugs. -/
def storeApp (matchit : Matchit)
    (errorHandler : Option (Nat → Conn (Assigns (AssignKey.Value β)) → Conn (Assigns (AssignKey.Value β))))
    (afterPlugs : List (Plug (Assigns (AssignKey.Value β)) Ω)) : Endpoint.App (Assigns (AssignKey.Value β)) Ω :=
  { matchit, router := buildRouter clock h, errorHandler, afterPlugs }

/-- The route of a request: one of the orders' at the path of an order, and of the others at any other. -/
theorem store_route {matchit : Matchit} (hmatchit : FindsPlain matchit) {method : Method} {path : String}
    {resolved : ResolvedRoute (Assigns (AssignKey.Value β)) Ω}
    (hresolved : (buildRouter clock h).resolve matchit method path = .ok (some resolved)) :
    (OrderPath path ∧ resolved.handler ∈ orderHandlers h ∧
      resolved.pipelines = [apiPipeline clock, authPipeline]) ∨
    (¬OrderPath path ∧ resolved.handler ∈ publicHandlers h ∧
      (resolved.pipelines = [browserPipeline] ∨ resolved.pipelines = [] ∨
        resolved.pipelines = [apiPipeline clock])) := by
  obtain ⟨hbrowser, hnone, hapi, hauth⟩ := piped_eq clock h
  obtain ⟨route, hroute, params, hmatch, rfl⟩ := found_route hmatchit (routes_plain clock h) rfl hresolved
  have hsome : (matchPattern route.matchitPath path).isSome := by rw [hmatch]; rfl
  rw [← List.take_append_drop 18 (buildRouter clock h).routes] at hroute
  rcases List.mem_append.mp hroute with hroute | hroute
  · obtain ⟨hroutes, hhandlers⟩ := public_routes clock h
    have hentry : summary route ∈ publicRoutes := by
      rw [← hroutes]
      exact List.mem_map_of_mem hroute
    have hhandler : route.handler ∈ publicHandlers h := by
      rw [← hhandlers]
      exact List.mem_map_of_mem hroute
    have hnames : ∀ entry ∈ publicRoutes, entry.2 = ["browser"] ∨ entry.2 = [] ∨ entry.2 = ["api"] := by decide
    refine Or.inr ⟨public_not_order hentry hsome, hhandler, ?_⟩
    show piped clock h (summary route).2 = _ ∨ piped clock h (summary route).2 = _ ∨
      piped clock h (summary route).2 = _
    rcases hnames _ hentry with hname | hname | hname <;> rw [hname]
    · exact Or.inl hbrowser
    · exact Or.inr (Or.inl hnone)
    · exact Or.inr (Or.inr hapi)
  · obtain ⟨hroutes, hhandlers⟩ := order_routes clock h
    have hentry : summary route ∈ orderRoutes := by
      rw [← hroutes]
      exact List.mem_map_of_mem hroute
    have hhandler : route.handler ∈ orderHandlers h := by
      rw [← hhandlers]
      exact List.mem_map_of_mem hroute
    have hpatterns : ∀ entry ∈ orderRoutes,
        (entry.1 = ordersPattern ∨ entry.1 = orderPattern) ∧ entry.2 = ["api", "auth"] := by decide
    obtain ⟨hpattern, hname⟩ := hpatterns _ hentry
    refine Or.inl ⟨?_, hhandler, ?_⟩
    · rcases hpattern with hp | hp
      · exact Or.inl (hp ▸ hsome)
      · exact Or.inr (hp ▸ hsome)
    · show piped clock h (summary route).2 = _
      rw [hname]
      exact hauth

/--
**The orders need a key, and nothing else does.**  For every handler of the store, every
clock that is not before the epoch, every `matchit` that finds what matches among plain
paths, every error handler and after-plugs, and every request that has a route.  At the path
of an order, whatever the method: the route is one of the order controller's; without an
`x-api-key` header no handler is called, whatever else happens meanwhile, nothing behind the
pipeline runs, and the answer is 401 with the JSON error; with one the controller is called
just once, with the request as it came, the user and a request id.  At every other path the
route is not the order controller's, and its handler is called just once, with or without a key.
-/
theorem orders_need_key {matchit : Matchit} (hmatchit : FindsPlain matchit)
    (errorHandler : Option (Nat → Conn (Assigns (AssignKey.Value β)) → Conn (Assigns (AssignKey.Value β))))
    (afterPlugs : List (Plug (Assigns (AssignKey.Value β)) Ω)) (hlive : conn.halted = false)
    {resolved : ResolvedRoute (Assigns (AssignKey.Value β)) Ω}
    (hresolved : (buildRouter clock h).resolve matchit conn.method conn.uri.path = .ok (some resolved)) :
    ∃ run, (storeApp clock h matchit errorHandler afterPlugs).executeRequest conn = .ok run ∧
      (OrderPath conn.uri.path →
        resolved.handler ∈ orderHandlers h ∧
        (conn.headers.get "x-api-key" = none → run.Always Event.IsQuiet ∧ run.Returns (Refused conn)) ∧
        (conn.headers.get "x-api-key" ≠ none →
          Calls resolved.handler (Authenticated clock { conn with pathParams := resolved.pathParams })
            (Router.afterPlugs (storeApp clock h matchit errorHandler afterPlugs)) run)) ∧
      (¬OrderPath conn.uri.path →
        resolved.handler ∈ publicHandlers h ∧
        Calls resolved.handler (SameRequest conn)
          (Router.afterPlugs (storeApp clock h matchit errorHandler afterPlugs)) run) := by
  have hfound : (storeApp clock h matchit errorHandler afterPlugs).router.resolve
      (storeApp clock h matchit errorHandler afterPlugs).matchit conn.method conn.uri.path
        = .ok (some resolved) := hresolved
  obtain ⟨run, hrun⟩ : ∃ run,
      (storeApp clock h matchit errorHandler afterPlugs).executeRequest conn = .ok run := by
    unfold Endpoint.App.executeRequest
    rw [hfound]
    exact ⟨_, rfl⟩
  have hlive' : ({ conn with pathParams := resolved.pathParams } :
      Conn (Assigns (AssignKey.Value β))).halted = false := hlive
  have hapi := api_leaves clock hlive'
  refine ⟨run, hrun, ?_, ?_⟩
  · intro horder
    obtain ⟨-, hhandler, hpipelines⟩ | ⟨hnot, -⟩ := store_route clock h hmatchit hresolved
    · refine ⟨hhandler, fun hkey => ?_, fun hkey => ?_⟩
      · have hleave : Leave resolved conn fun c => c.halted = true ∧ Refused conn c := by
          unfold Leave
          rw [hpipelines]
          refine runPipelines_cons hlive' hapi fun c hc => ?_
          refine runPipelines_cons hc.halted (auth_refuses clock hc hkey) fun c hc => ?_
          exact ⟨hc.1, ⟨hc.2.method, hc.2.uri, hc.2.headers, hc.2.body, hc.2.remoteAddr⟩, hc.2.status,
            hc.2.answer, hc.2.json⟩
        exact executeRequest_refused hfound hrun hleave
      · have hleave : Leave resolved conn fun c => c.halted = false ∧
            Authenticated clock { conn with pathParams := resolved.pathParams } c := by
          unfold Leave
          rw [hpipelines]
          refine runPipelines_cons hlive' hapi fun c hc => ?_
          exact runPipelines_cons hc.halted (auth_admits clock hc hkey) fun c hc => ⟨hc.halted, hc⟩
        exact executeRequest_admitted hfound hrun hleave
    · exact absurd horder hnot
  · intro hpublic
    obtain ⟨horder, -⟩ | ⟨-, hhandler, hpipelines⟩ := store_route clock h hmatchit hresolved
    · exact absurd horder hpublic
    · refine ⟨hhandler, executeRequest_admitted hfound hrun ?_⟩
      have hsame : ∀ c, SameRequest { conn with pathParams := resolved.pathParams } c → SameRequest conn c :=
        fun c hc => ⟨hc.method, hc.uri, hc.headers, hc.body, hc.remoteAddr⟩
      unfold Leave
      rcases hpipelines with hpipelines | hpipelines | hpipelines <;> rw [hpipelines]
      · exact runPipelines_cons hlive' (browser_leaves hlive') fun c hc => ⟨hc.1, hsame c hc.2⟩
      · exact ⟨hlive, ⟨rfl, rfl, rfl, rfl, rfl⟩⟩
      · exact runPipelines_cons hlive' hapi fun c hc => ⟨hc.halted, hsame c hc.toSameRequest⟩

end

/-! ### An order without a key -/

def anyPlug : Plug (Assigns (AssignKey.Value fun _ : Unit => Unit)) Nat := .syncPlugFn id

def anyHandlers : Handlers (Assigns (AssignKey.Value fun _ : Unit => Unit)) Nat where
  renderHome := anyPlug
  renderMenu := anyPlug
  renderOrder := anyPlug
  renderOrderStatus := anyPlug
  renderAbout := anyPlug
  renderFlavor := anyPlug
  menu := anyPlug
  hours := anyPlug
  about := anyPlug
  toppings := anyPlug
  specials := anyPlug
  priceStream := anyPlug
  flavorController := {}
  orderController := {}

def postOrder : Conn (Assigns (AssignKey.Value fun _ : Unit => Unit)) :=
  .new .post { path := "/api/orders", query := none }

/-- The request has a route. -/
def hasRoute {A : Type} : Except Panic (Option (ResolvedRoute A Nat)) → Bool
  | .ok (some _) => true
  | _ => false

/-- The answer of the clock is the time. -/
def exactClock : Clock Nat := { sinceEpoch := some, inTime := fun _ => rfl }

theorem orders_need_key_post : ∃ run,
    (storeApp exactClock anyHandlers preferStatic none []).executeRequest postOrder = .ok run ∧
      run.Always Event.IsQuiet ∧ run.Returns (Refused postOrder) := by
  have hroute : hasRoute ((buildRouter exactClock anyHandlers).resolve preferStatic .post "/api/orders") = true := by
    decide +kernel
  have hpath : OrderPath "/api/orders" := Or.inl (by decide +kernel)
  cases hresolved : (buildRouter exactClock anyHandlers).resolve preferStatic .post "/api/orders" with
  | error e =>
      rw [hresolved] at hroute
      cases hroute
  | ok found =>
      cases found with
      | none =>
          rw [hresolved] at hroute
          cases hroute
      | some resolved =>
          obtain ⟨run, hrun, horder, -⟩ := orders_need_key exactClock anyHandlers
            preferStatic_staticFirst.findsPlain none [] (show postOrder.halted = false from rfl) hresolved
          exact ⟨run, hrun, (horder hpath).2.1 rfl⟩

end Mahalo.TestApp
