/-
`MahaloRouter`: its builder, and the way from a request to a response.

`matchit` is a parameter: whether it takes a path after those it has, and what it
answers for a request path.  A closure passed to `scope` is the list of the calls
it makes on its `ScopeBuilder`.  Panics are errors.

Executing a route emits an event when a pipeline starts and when the handler is
called, so that what ran, and in which order, is part of a run.
-/
import Mahalo.Core.Plug
import Mahalo.Lib.RustStd

namespace Mahalo.Router

open Interactive

variable {A Ω : Type}

/-- What a matched route dispatches to. -/
inductive Handler (A Ω : Type) where
  | plug (plug : Plug A Ω)
  | controller (controller : Controller A Ω) (action : String)

structure Route (A Ω : Type) where
  method : Method
  /-- pattern segments, with `:name` for a parameter -/
  segments : List String
  matchitPath : String
  handler : Handler A Ω
  pipelineNames : List String
  name : Option String
  paramKeys : List String

/-! ### Paths -/

/-- `extract_param_keys` -/
def extractParamKeys (segments : List String) : List String :=
  segments.filterMap fun s => (RustStd.stripPrefix s.toList [':']).map String.ofList

/-- `parse_segments` -/
def parseSegments (path : String) : List String :=
  ((RustStd.split path.toList '/').filter fun s => !s.isEmpty).map String.ofList

/-- `colon_to_brace`: `:name` becomes a parameter in braces. -/
def colonToBrace (path : String) : String :=
  let result := (RustStd.split path.toList '/').foldl (fun result segment =>
    let result :=
      if !result.isEmpty || RustStd.startsWith path.toList ['/'] then
        if !result.isEmpty then result ++ ['/'] else result
      else result
    match RustStd.stripPrefix segment [':'] with
    | some param => result ++ ['\x7b'] ++ param ++ ['\x7d']
    | none => result ++ segment) []
  String.ofList (if RustStd.startsWith result ['/'] then result else '/' :: result)

/-- `normalize_prefix` -/
def normalizePrefix (path : String) : String :=
  let trimmed := RustStd.trimEndMatches path.toList '/'
  String.ofList (if RustStd.startsWith trimmed ['/'] then trimmed else '/' :: trimmed)

/-- `build_matchit_path` -/
def buildMatchitPath (scopePrefix path : String) : String :=
  let full :=
    if path = "/" ∨ path = "" then scopePrefix
    else if RustStd.startsWith path.toList ['/'] then scopePrefix ++ path
    else scopePrefix ++ "/" ++ path
  colonToBrace full

/-! ### Inside a scope -/

structure ScopeBuilder (A Ω : Type) where
  scopePrefix : String
  prefixSegments : List String
  pipelineNames : List String
  routes : List (Route A Ω)

namespace ScopeBuilder

def new (scopePrefix : String) (prefixSegments pipelineNames : List String) : ScopeBuilder A Ω :=
  { scopePrefix, prefixSegments, pipelineNames, routes := [] }

/-- `add_route` and `add_named_route` -/
def addRoute (s : ScopeBuilder A Ω) (method : Method) (path : String) (name : Option String)
    (handler : Handler A Ω) : ScopeBuilder A Ω :=
  let segments := s.prefixSegments ++ parseSegments path
  { s with routes := s.routes ++ [{
      method
      segments
      matchitPath := buildMatchitPath s.scopePrefix path
      handler
      pipelineNames := s.pipelineNames
      name
      paramKeys := extractParamKeys segments }] }

/-- `ScopeBuilder::resources` -/
def resources (s : ScopeBuilder A Ω) (path : String) (controller : Controller A Ω) :
    ScopeBuilder A Ω :=
  let withId := path ++ "/:id"
  let base := String.ofList (RustStd.trimStartMatches path.toList '/')
  let action (s : ScopeBuilder A Ω) (method : Method) (path action : String) :=
    s.addRoute method path (some (base ++ "_" ++ action)) (.controller controller action)
  let s := action s .get path "index"
  let s := action s .get withId "show"
  let s := action s .post path "create"
  let s := action s .put withId "update"
  action s .delete withId "delete"

end ScopeBuilder

/-- A call on a `ScopeBuilder`: one of `get` to `delete`, named or not, or `resources`. -/
inductive ScopeCall (A Ω : Type) where
  | route (method : Method) (path : String) (name : Option String) (plug : Plug A Ω)
  | resources (path : String) (controller : Controller A Ω)

def ScopeCall.apply (s : ScopeBuilder A Ω) : ScopeCall A Ω → ScopeBuilder A Ω
  | .route method path name plug => s.addRoute method path name (.plug plug)
  | .resources path controller => s.resources path controller

/-! ### The router -/

/-- A `matchit::Router<usize>`: the paths inserted, in order, with their values. -/
abbrev Inserted := List (String × Nat)

structure Matchit where
  /-- `insert` succeeds -/
  accepts : Inserted → String → Bool
  /-- `at`: the value of the path that matches, and its parameters -/
  find : Inserted → String → Option (Nat × List (String × String))

inductive Panic where
  /-- `insert(..).unwrap()` on conflicting routes -/
  | conflict
  /-- a value that is no index of a route -/
  | index
  deriving DecidableEq, Repr

structure CompiledRouters where
  get : Inserted
  post : Inserted
  put : Inserted
  patch : Inserted
  delete : Inserted

namespace CompiledRouters

def empty : CompiledRouters := { get := [], post := [], put := [], patch := [], delete := [] }

def forMethod (c : CompiledRouters) : Method → Option Inserted
  | .get | .head => some c.get
  | .post => some c.post
  | .put => some c.put
  | .patch => some c.patch
  | .delete => some c.delete
  | _ => none

/-- One round of the loop of `compile`. -/
def insert (matchit : Matchit) (c : CompiledRouters) (idx : Nat) (route : Route A Ω) :
    Except Panic CompiledRouters :=
  let into (router : Inserted) (set : Inserted → CompiledRouters) : Except Panic CompiledRouters :=
    if matchit.accepts router route.matchitPath then .ok (set (router ++ [(route.matchitPath, idx)]))
    else .error .conflict
  match route.method with
  | .get => into c.get fun get => { c with get }
  | .post => into c.post fun post => { c with post }
  | .put => into c.put fun put => { c with put }
  | .patch => into c.patch fun patch => { c with patch }
  | .delete => into c.delete fun delete => { c with delete }
  | _ => .ok c

def insertFrom (matchit : Matchit) : CompiledRouters → Nat → List (Route A Ω) →
    Except Panic CompiledRouters
  | c, _, [] => .ok c
  | c, idx, route :: rest => do insertFrom matchit (← c.insert matchit idx route) (idx + 1) rest

end CompiledRouters

abbrev Pipelines (A Ω : Type) := AList fun _ : String => Pipeline A Ω

structure MahaloRouter (A Ω : Type) where
  pipelines : Pipelines A Ω
  routes : List (Route A Ω)
  nameIndex : AList fun _ : String => Nat
  /-- the `OnceCell` -/
  compiled : Option CompiledRouters

/-- A matched route: what to run for the request. -/
structure ResolvedRoute (A Ω : Type) where
  pathParams : PathParams
  pipelines : List (Pipeline A Ω)
  handler : Handler A Ω

namespace MahaloRouter

def new : MahaloRouter A Ω := { pipelines := ∅, routes := [], nameIndex := ∅, compiled := none }

def pipeline (r : MahaloRouter A Ω) (p : Pipeline A Ω) : MahaloRouter A Ω :=
  { r with pipelines := r.pipelines.insert p.name p }

/-- The names of routes that are added from index `start` on. -/
def indexNames : Nat → List (Route A Ω) → (AList fun _ : String => Nat) → AList fun _ : String => Nat
  | _, [], index => index
  | i, route :: rest, index =>
      indexNames (i + 1) rest (match route.name with
        | some name => index.insert name i
        | none => index)

/-- `MahaloRouter::scope` -/
def scope (r : MahaloRouter A Ω) (scopePrefix : String) (pipelineNames : List String)
    (f : List (ScopeCall A Ω)) : MahaloRouter A Ω :=
  let builder := f.foldl ScopeCall.apply
    (.new (normalizePrefix scopePrefix) (parseSegments scopePrefix) pipelineNames)
  { r with
    routes := r.routes ++ builder.routes
    nameIndex := indexNames r.routes.length builder.routes r.nameIndex }

/-- `add_top_level_route` -/
def addTopLevelRoute (r : MahaloRouter A Ω) (method : Method) (path : String) (plug : Plug A Ω)
    (name : Option String) : MahaloRouter A Ω :=
  let segments := parseSegments path
  { r with
    routes := r.routes ++ [{
      method
      segments
      matchitPath := colonToBrace path
      handler := .plug plug
      pipelineNames := []
      name
      paramKeys := extractParamKeys segments }]
    nameIndex :=
      match name with
      | some n => r.nameIndex.insert n r.routes.length
      | none => r.nameIndex }

/-- `MahaloRouter::compile` -/
def compile (matchit : Matchit) (r : MahaloRouter A Ω) : Except Panic CompiledRouters :=
  CompiledRouters.insertFrom matchit .empty 0 r.routes

/-- The first half of `resolve`: the index of the route that matches, and the parameters. -/
def matchRoute (matchit : Matchit) (r : MahaloRouter A Ω) (method : Method) (path : String) :
    Except Panic (Option (Nat × List (String × String))) := do
  let compiled ←
    match r.compiled with
    | some compiled => pure compiled
    | none => r.compile matchit
  return (compiled.forMethod method).bind fun router => matchit.find router path

/-- `MahaloRouter::resolve` -/
def resolve (matchit : Matchit) (r : MahaloRouter A Ω) (method : Method) (path : String) :
    Except Panic (Option (ResolvedRoute A Ω)) := do
  match ← r.matchRoute matchit method path with
  | none => return none
  | some (routeIdx, params) =>
      match r.routes[routeIdx]? with
      | none => throw .index
      | some route =>
          return some {
            pathParams := params.map fun (k, v) => ((route.paramKeys.find? (· == k)).getD k, v)
            pipelines := route.pipelineNames.filterMap fun name => r.pipelines.lookup name
            handler := route.handler }

/-- What `path_for` puts in a segment's place. -/
def partFor (params : List (String × String)) (seg : String) : Option String :=
  match RustStd.stripPrefix seg.toList [':'] with
  | some paramName =>
      (params.find? fun (k, _) => k == String.ofList paramName).map fun (_, value) => value
  | none => some seg

/-- `path_for`: the path of a named route, with the parameters filled in. -/
def pathFor (r : MahaloRouter A Ω) (name : String) (params : List (String × String)) :
    Except Panic (Option String) :=
  match r.nameIndex.lookup name with
  | none => .ok none
  | some idx =>
      match r.routes[idx]? with
      | none => .error .index
      | some route =>
          .ok ((route.segments.mapM (partFor params)).map fun (parts : List String) =>
            String.ofList ('/' :: ['/'].intercalate (parts.map String.toList)))

end MahaloRouter

/-- A call of the builder: `pipeline`, `scope`, or one of the top-level routes. -/
inductive BuilderCall (A Ω : Type) where
  | pipeline (p : Pipeline A Ω)
  | scope (scopePrefix : String) (pipelineNames : List String) (f : List (ScopeCall A Ω))
  | route (method : Method) (path : String) (plug : Plug A Ω) (name : Option String)

def BuilderCall.apply (r : MahaloRouter A Ω) : BuilderCall A Ω → MahaloRouter A Ω
  | .pipeline p => r.pipeline p
  | .scope scopePrefix pipelineNames f => r.scope scopePrefix pipelineNames f
  | .route method path plug name => r.addTopLevelRoute method path plug name

/-- The router after a chain of builder calls. -/
def build (calls : List (BuilderCall A Ω)) : MahaloRouter A Ω := calls.foldl BuilderCall.apply .new

/-! ### Executing a route -/

inductive Event (A Ω : Type) where
  | pipeline (p : Pipeline A Ω)
  | handler
  /-- a plug or the handler waits for something outside -/
  | wait

def Event.Answer : Event A Ω → Type
  | .wait => Ω
  | _ => Unit

abbrev Run (A Ω X : Type) := Prog (Event A Ω) Event.Answer X

/-- `.await` -/
def await {X : Type} (c : Async Ω X) : Run A Ω X := c.lift (fun _ => .wait) fun _ a => a

def Handler.run : Handler A Ω → Conn A → Async Ω (Conn A)
  | .plug p, conn => p.run conn
  | .controller c action, conn => c.callAction action conn

/-- The loop over the pipelines; a halted `Conn` is returned. -/
def runPipelines : List (Pipeline A Ω) → Conn A → Run A Ω (Conn A)
  | [], conn => pure conn
  | p :: rest, conn =>
      if conn.halted then pure conn
      else .emit (.pipeline p) fun _ => await (p.execute conn) >>= runPipelines rest

/-- `ResolvedRoute::execute` -/
def ResolvedRoute.execute (resolved : ResolvedRoute A Ω) (conn : Conn A) : Run A Ω (Conn A) := do
  let conn ← runPipelines resolved.pipelines { conn with pathParams := resolved.pathParams }
  if conn.halted then pure conn
  else .emit .handler fun _ => await (resolved.handler.run conn)

end Mahalo.Router
