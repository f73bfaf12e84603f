/-
Query parameters do not reach the handlers.

`Conn::parse_query_params` decodes the query of a request, and the documentation says
that the endpoint calls it.  Nothing between the parser and the first plug does: a new
`Conn` has no query parameters, one that is recycled has an empty map at most, and the
router fills in the path parameters only.
-/
import Mahalo.Proofs.Endpoint.HttpParse
import Mahalo.Proofs.Router.Pipelines
import Mahalo.Endpoint.Server

namespace Mahalo.Endpoint

open Interactive Router HttpParse

variable {A Ω : Type}

/-! ### What the first plug is given -/

/-- Pipelines without a plug are entered, and nothing of the request is run in them. -/
def enter (ps : List (Pipeline A Ω)) (run : Run A Ω (Conn A)) : Run A Ω (Conn A) :=
  ps.foldr (fun p rest => .emit (.pipeline p) fun _ => rest) run

/-- A run that begins with the first plug of the route, or with its handler if there is none. -/
inductive BeginsOn (resolved : ResolvedRoute A Ω) (conn : Conn A) : Run A Ω (Conn A) → Prop where
  | plug (ps : List (Pipeline A Ω)) (p : Pipeline A Ω) (plug : Plug A Ω) (plugs : List (Plug A Ω))
      (rest : List (Pipeline A Ω)) (k : Conn A → Run A Ω (Conn A))
      (hpipelines : resolved.pipelines = ps ++ p :: rest) (hempty : ∀ q ∈ ps, q.plugs = [])
      (hplugs : p.plugs = plug :: plugs) :
      BeginsOn resolved conn
        (enter ps (.emit (.pipeline p) fun _ => await (plug.run conn) >>= k))
  | handler (k : Conn A → Run A Ω (Conn A)) (hempty : ∀ q ∈ resolved.pipelines, q.plugs = []) :
      BeginsOn resolved conn
        (enter resolved.pipelines (.emit .handler fun _ => await (resolved.handler.run conn) >>= k))

theorem enter_bind (ps : List (Pipeline A Ω)) (run : Run A Ω (Conn A)) (f : Conn A → Run A Ω (Conn A)) :
    enter ps run >>= f = enter ps (run >>= f) := by
  induction ps with
  | nil => rfl
  | cons p rest ih => exact congrArg (Prog.emit (Event.pipeline p)) (funext fun _ => ih)

theorem BeginsOn.bind {resolved : ResolvedRoute A Ω} {conn : Conn A} {run : Run A Ω (Conn A)}
    (h : BeginsOn resolved conn run) (f : Conn A → Run A Ω (Conn A)) : BeginsOn resolved conn (run >>= f) := by
  cases h with
  | plug ps p plug plugs rest k hpipelines hempty hplugs =>
      rw [enter_bind]
      have hassoc : (await (plug.run conn) >>= k) >>= f = await (plug.run conn) >>= fun c => k c >>= f :=
        Prog.bind_assoc ..
      have hrun : BeginsOn resolved conn
          (enter ps (.emit (.pipeline p) fun _ => await (plug.run conn) >>= fun c => k c >>= f)) :=
        .plug ps p plug plugs rest _ hpipelines hempty hplugs
      rw [← hassoc] at hrun
      exact hrun
  | handler k hempty =>
      rw [enter_bind]
      have hassoc : (await (resolved.handler.run conn) >>= k) >>= f
          = await (resolved.handler.run conn) >>= fun c => k c >>= f := Prog.bind_assoc ..
      have hrun : BeginsOn resolved conn (enter resolved.pipelines
          (.emit .handler fun _ => await (resolved.handler.run conn) >>= fun c => k c >>= f)) :=
        .handler _ hempty
      rw [← hassoc] at hrun
      exact hrun

theorem await_bind {X Y : Type} (c : Async Ω X) (f : X → Async Ω Y) :
    (await (c >>= f) : Run A Ω Y) = await c >>= fun x => await (f x) := Prog.lift_bind c f

theorem runPipelines_empty {ps : List (Pipeline A Ω)} (hempty : ∀ q ∈ ps, q.plugs = []) {conn : Conn A}
    (hlive : conn.halted = false) : runPipelines ps conn = enter ps (pure conn) := by
  induction ps with
  | nil => rfl
  | cons p rest ih =>
      have hp : p.plugs = [] := hempty p (List.mem_cons_self ..)
      unfold runPipelines
      rw [if_neg (by rw [hlive]; exact Bool.false_ne_true), Pipeline.execute, hp]
      exact congrArg (Prog.emit (Event.pipeline p))
        (funext fun _ => ih fun q hq => hempty q (List.mem_cons_of_mem _ hq))

theorem runPipelines_first {ps : List (Pipeline A Ω)} {p : Pipeline A Ω} {plug : Plug A Ω}
    {plugs : List (Plug A Ω)} (rest : List (Pipeline A Ω)) (hempty : ∀ q ∈ ps, q.plugs = [])
    (hplugs : p.plugs = plug :: plugs) {conn : Conn A} (hlive : conn.halted = false) :
    runPipelines (ps ++ p :: rest) conn
      = enter ps (.emit (.pipeline p) fun _ => await (plug.run conn) >>= fun c =>
          await (Pipeline.executeEach plugs c) >>= runPipelines rest) := by
  have hrun : ¬conn.halted = true := by
    rw [hlive]
    exact Bool.false_ne_true
  induction ps with
  | nil =>
      have heach : p.execute conn = plug.run conn >>= Pipeline.executeEach plugs := by
        unfold Pipeline.execute
        rw [hplugs]
        exact if_neg hrun
      show runPipelines (p :: rest) conn = _
      unfold runPipelines
      rw [if_neg hrun, heach, await_bind]
      exact congrArg (Prog.emit (Event.pipeline p)) (funext fun _ => Prog.bind_assoc ..)
  | cons q qs ih =>
      have hq : q.plugs = [] := hempty q (List.mem_cons_self ..)
      show runPipelines (q :: (qs ++ p :: rest)) conn = _
      unfold runPipelines
      rw [if_neg hrun, Pipeline.execute, hq]
      exact congrArg (Prog.emit (Event.pipeline q))
        (funext fun _ => ih fun x hx => hempty x (List.mem_cons_of_mem _ hx))

/-- The first pipeline that has a plug. -/
theorem first_plug (ps : List (Pipeline A Ω)) : (∀ q ∈ ps, q.plugs = []) ∨
    ∃ qs p plug plugs rest, ps = qs ++ p :: rest ∧ (∀ q ∈ qs, q.plugs = []) ∧ p.plugs = plug :: plugs := by
  induction ps with
  | nil => exact Or.inl fun q hq => absurd hq List.not_mem_nil
  | cons q ps ih =>
      cases hq : q.plugs with
      | cons plug plugs =>
          exact Or.inr ⟨[], q, plug, plugs, ps, rfl, fun x hx => absurd hx List.not_mem_nil, hq⟩
      | nil =>
          rcases ih with hempty | ⟨qs, p, plug, plugs, rest, rfl, hempty, hplugs⟩
          · left
            intro x hx
            rcases List.mem_cons.mp hx with rfl | hx
            · exact hq
            · exact hempty x hx
          · refine Or.inr ⟨q :: qs, p, plug, plugs, rest, rfl, ?_, hplugs⟩
            intro x hx
            rcases List.mem_cons.mp hx with rfl | hx
            · exact hq
            · exact hempty x hx

/-- **The first plug of a route is run on the request with its path parameters**, and nothing else. -/
theorem execute_beginsOn (resolved : ResolvedRoute A Ω) {conn : Conn A} (hlive : conn.halted = false) :
    BeginsOn resolved { conn with pathParams := resolved.pathParams } (resolved.execute conn) := by
  have hlive' : ({ conn with pathParams := resolved.pathParams } : Conn A).halted = false := hlive
  unfold ResolvedRoute.execute
  rcases first_plug resolved.pipelines with hempty | ⟨qs, p, plug, plugs, rest, hpipelines, hempty, hplugs⟩
  · have hrun : BeginsOn resolved { conn with pathParams := resolved.pathParams }
        (enter resolved.pipelines (.emit .handler fun _ =>
          await (resolved.handler.run { conn with pathParams := resolved.pathParams }) >>= pure)) :=
      .handler _ hempty
    rw [Prog.bind_pure] at hrun
    rw [runPipelines_empty hempty hlive', enter_bind]
    have hcheck : (pure { conn with pathParams := resolved.pathParams } >>= fun c : Conn A =>
        if c.halted then pure c else Prog.emit .handler fun _ => await (resolved.handler.run c) :
          Run A Ω (Conn A)) = Prog.emit .handler fun _ =>
            await (resolved.handler.run { conn with pathParams := resolved.pathParams }) :=
      if_neg (by rw [hlive']; exact Bool.false_ne_true)
    rw [hcheck]
    exact hrun
  · rw [hpipelines, runPipelines_first rest hempty hplugs hlive']
    exact (BeginsOn.plug qs p plug plugs rest _ hpipelines hempty hplugs).bind _

/-- The same for a whole request. -/
theorem executeRequest_beginsOn (app : App A Ω) {conn : Conn A} (hlive : conn.halted = false)
    {resolved : ResolvedRoute A Ω}
    (hresolve : app.router.resolve app.matchit conn.method conn.uri.path = .ok (some resolved)) :
    ∃ run, app.executeRequest conn = .ok run ∧
      BeginsOn resolved { conn with pathParams := resolved.pathParams } run := by
  unfold App.executeRequest
  rw [hresolve]
  exact ⟨_, rfl, (execute_beginsOn resolved hlive).bind _⟩

/-! ### What the parser leaves in a `Conn` -/

variable {K : Type} [DecidableEq K] {β : K → Type} {R : Type} {percentDecode : String → List UInt8}

/-- A request that the endpoint parsed, into a new `Conn` or into a recycled one. -/
inductive ParsedConn (srv : Server (Assigns β) Ω) (buf : List UInt8) : Conn (Assigns β) → Prop where
  | fresh {parsed : ParsedRequest (Assigns β)} (h : srv.tryParse buf = .ok (some parsed)) :
      ParsedConn srv buf parsed.conn
  | recycled {R : Type} {used conn : RuntimeConn (Assigns β) R} {result : ParsedIntoResult}
      (h : tryParseIntoConn srv.lib used buf srv.bodyLimit srv.peerAddr = (.ok (some result), conn)) :
      ParsedConn srv buf conn.toConn

omit [DecidableEq K] in
theorem tryParseIntoConn_plain {lib : HttpLib} {used conn : RuntimeConn (Assigns β) R} {buf : List UInt8}
    {bodyLimit : Nat} {peerAddr : String} {result : ParsedIntoResult}
    (h : tryParseIntoConn lib used buf bodyLimit peerAddr = (.ok (some result), conn)) :
    conn.halted = false ∧ conn.queryParams = used.queryParams.map fun _ => ∅ := by
  unfold tryParseIntoConn at h
  cases hraw : parseRaw lib buf with
  | error e =>
      rw [hraw] at h
      cases h
  | ok found =>
      rw [hraw] at h
      rcases found with _ | raw
      · cases h
      · dsimp only at h
        cases hbody : finalizeBodyAndKeepalive raw buf bodyLimit with
        | error e =>
            rw [hbody] at h
            cases h
        | ok framed =>
            rw [hbody] at h
            rcases framed with _ | ⟨body, keepAlive, total⟩
            · cases h
            · dsimp only at h
              generalize appendHeadersTo lib (used.reset raw.method raw.uri).headers raw.headers = into at h
              obtain ⟨_ | _, headers⟩ := into
              · cases h
              · cases h
                exact ⟨rfl, rfl⟩

omit [DecidableEq K] in
/-- A parsed request is not halted, and no query parameter is found in it. -/
theorem ParsedConn.plain {srv : Server (Assigns β) Ω} {buf : List UInt8} {conn : Conn (Assigns β)}
    (h : ParsedConn srv buf conn) : conn.halted = false ∧ ∀ name, conn.queryParam name = none := by
  cases h with
  | fresh h =>
      unfold Server.tryParse tryParseRequest at h
      repeat' split at h
      all_goals cases h
      exact ⟨rfl, fun _ => rfl⟩
  | @recycled R used conn result h =>
      obtain ⟨hhalted, hquery⟩ := tryParseIntoConn_plain h
      refine ⟨hhalted, fun name => ?_⟩
      unfold Conn.queryParam
      rw [hquery]
      cases used.queryParams <;> rfl

/-! ### What the documentation promises -/

/-- A query always has a parameter, be it one without a name. -/
theorem decodeQuery_some (percentDecode : String → List UInt8) (query : String) :
    ∃ name value, (Conn.decodeQuery percentDecode query).lookup name = some value := by
  unfold Conn.decodeQuery
  obtain ⟨pairs, pair, hpairs⟩ := (List.eq_nil_or_concat
    ((RustStd.split query.toList '&').map (Conn.decodePair percentDecode))).resolve_left (by
      rw [List.map_eq_nil_iff, RustStd.split_eq_splitOn]
      exact List.splitOn_ne_nil '&' query.toList)
  refine ⟨pair.1, pair.2, ?_⟩
  rw [hpairs, List.concat_eq_append, List.foldl_append]
  exact AList.lookup_insert ..

omit [DecidableEq K] in
/--
**The first plug of a route has no query parameters.**  Whatever the query of the
request, the conn on which the first plug or the handler is called has none of them,
while `parse_query_params` would find at least one.
-/
theorem query_not_parsed (percentDecode : String → List UInt8) (srv : Server (Assigns β) Ω)
    {buf : List UInt8} {conn : Conn (Assigns β)} (hconn : ParsedConn srv buf conn) {query : String}
    (hquery : conn.uri.query = some query) {resolved : ResolvedRoute (Assigns β) Ω}
    (hresolve : srv.router.resolve srv.matchit conn.method conn.uri.path = .ok (some resolved)) :
    ∃ run given, srv.executeRequest conn = .ok run ∧ BeginsOn resolved given run ∧
      given = { conn with pathParams := resolved.pathParams } ∧
      given.queryParams ≠ some (Conn.decodeQuery percentDecode query) ∧
      (∀ name, given.queryParam name = none) ∧
      ∃ name value, (given.parseQueryParams percentDecode).queryParam name = some value := by
  obtain ⟨hlive, hnone⟩ := hconn.plain
  obtain ⟨run, hrun, hbegins⟩ := executeRequest_beginsOn srv.toApp hlive hresolve
  obtain ⟨name, value, hvalue⟩ := decodeQuery_some percentDecode query
  refine ⟨run, _, hrun, hbegins, rfl, ?_, hnone, name, value, ?_⟩
  · intro heq
    have heq : conn.queryParams = some (Conn.decodeQuery percentDecode query) := heq
    have hfound := hnone name
    unfold Conn.queryParam at hfound
    rw [heq, Option.bind_some, hvalue] at hfound
    cases hfound
  · unfold Conn.parseQueryParams
    dsimp only
    rw [hquery]
    exact hvalue

/-- A server with one route, and a request for it that has a query. -/
def searchHead : List UInt8 := RustStd.asBytes "GET /search?q=1 HTTP/1.1\r\n\r\n"

def searchLib : HttpLib :=
  { oneRequestLib searchHead
      { method := some "GET", path := some "/search?q=1", version := some 1, headers := [] } .get with
    uriFromStr := fun _ => some { path := "/search", query := some "q=1" } }

def searchServer : Server (Assigns fun _ : Unit => Unit) Unit where
  matchit := exactPaths
  router := build [.route .get "/search" (.syncPlugFn id) none]
  errorHandler := none
  afterPlugs := []
  lib := searchLib
  rendering := { canonicalReason := fun _ => none, base64Sha1 := fun _ => "" }
  bodyLimit := 1024
  peerAddr := "10.0.0.1:4000"
  isTls := false
  websockets := false
  sse := fun _ => none
  profile := .release

def searchConn : Conn (Assigns fun _ : Unit => Unit) :=
  { Conn.new .get { path := "/search", query := some "q=1" } with remoteAddr := some "10.0.0.1:4000" }

def searchResolved : ResolvedRoute (Assigns fun _ : Unit => Unit) Unit :=
  { pathParams := [], pipelines := [], handler := .plug (.syncPlugFn id) }

theorem searchServer_parses : ParsedConn searchServer searchHead searchConn :=
  .fresh (show searchServer.tryParse searchHead = .ok (some {
    conn := searchConn, keepAlive := true, bytesConsumed := 28, wsKey := none }) from rfl)

theorem query_not_parsed_search : ∃ run given, searchServer.executeRequest searchConn = .ok run ∧
    BeginsOn searchResolved given run ∧ given.queryParam "q" = none := by
  obtain ⟨run, given, hrun, hbegins, -, -, hnone, -⟩ := query_not_parsed RustStd.asBytes searchServer
    searchServer_parses (show searchConn.uri.query = some "q=1" from rfl)
    (show searchServer.router.resolve searchServer.matchit searchConn.method searchConn.uri.path
      = .ok (some searchResolved) from rfl)
  exact ⟨run, given, hrun, hbegins, hnone "q"⟩

/-- The handler asks for `q`, which the client sent, and finds nothing. -/
theorem search_finds_nothing : ParsedConn searchServer searchHead searchConn ∧
    searchServer.router.resolve searchServer.matchit searchConn.method searchConn.uri.path
      = .ok (some searchResolved) ∧
    (Conn.decodeQuery RustStd.asBytes "q=1").lookup "q" = some "1" ∧
    ¬∀ run given, searchServer.executeRequest searchConn = .ok run →
      BeginsOn searchResolved given run → given.queryParam "q" = some "1" := by
  refine ⟨searchServer_parses, rfl, by decide, ?_⟩
  intro hfinds
  obtain ⟨run, hrun, hbegins⟩ := executeRequest_beginsOn searchServer.toApp
    (show searchConn.halted = false from rfl)
    (show searchServer.router.resolve searchServer.matchit searchConn.method searchConn.uri.path
      = .ok (some searchResolved) from rfl)
  cases hfinds run _ hrun hbegins

end Mahalo.Endpoint
