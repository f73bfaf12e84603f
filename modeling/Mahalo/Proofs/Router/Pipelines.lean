/-
Which pipelines run before a scoped route's handler.

`resolve` looks the scope's names up one by one and drops those that are not
registered, so a route whose names are all registered runs one pipeline for each,
in order, and one with a name missing runs the others and then the handler.
`failsClosed` is the contract that a fail-closed router would keep whatever the
pipelines do; the code keeps it for exactly the routes of the first kind, and for
those that a pipeline before the missing one always halts.
-/
import Mahalo.Router.Router

namespace Mahalo.Router

open Interactive

variable {A Ω : Type}

/-! ### The contract -/

/-- The pipelines that have started. -/
def ran (log : List (Event A Ω)) : List (Pipeline A Ω) :=
  log.filterMap fun
    | .pipeline p => some p
    | _ => none

theorem ran_append (log log' : List (Event A Ω)) : ran (log ++ log') = ran log ++ ran log' :=
  List.filterMap_append

/--
The pipelines run are those registered for the names, one for each and in their
order, and the handler comes after the last of them.
-/
def failsClosed (pipelines : Pipelines A Ω) (names : List String) :
    Contract (Event A Ω) Event.Answer (List (Event A Ω)) where
  allows := fun log e =>
    match e with
    | .pipeline p => (ran log ++ [p]).map some <+: names.map fun name => pipelines.lookup name
    | .handler => (ran log).map some = names.map fun name => pipelines.lookup name
    | .wait => True
  answers := fun _ _ _ => True
  next := fun log e _ => log ++ [e]

/-- Whatever the plugs do and are answered, executing the route keeps the contract. -/
def FailsClosed (pipelines : Pipelines A Ω) (names : List String) (resolved : ResolvedRoute A Ω)
    (conn : Conn A) : Prop :=
  Prog.wp (failsClosed pipelines names) [] (resolved.execute conn) fun _ _ => True

/-- The name has a pipeline. -/
def registered (pipelines : Pipelines A Ω) (name : String) : Bool := (pipelines.lookup name).isSome

/-- The pipelines of the names before the first that has none. -/
def beforeMissing (pipelines : Pipelines A Ω) (names : List String) : List (Pipeline A Ω) :=
  (names.takeWhile (registered pipelines)).filterMap fun name => pipelines.lookup name

/-- Whatever they are answered, these pipelines leave a halted `Conn`. -/
def AlwaysHalt (ps : List (Pipeline A Ω)) (conn : Conn A) : Prop :=
  (runPipelines ps conn).Returns fun c => c.halted = true

/-! ### The loop over the pipelines -/

variable {pipelines : Pipelines A Ω} {names : List String} {log : List (Event A Ω)}

theorem runPipelines_halted (ps : List (Pipeline A Ω)) {conn : Conn A} (h : conn.halted = true) :
    runPipelines ps conn = pure conn := by
  cases ps with
  | nil => rfl
  | cons p rest =>
      unfold runPipelines
      rw [if_pos h]

/-- A plug or a handler that waits starts no pipeline. -/
theorem wp_await {X : Type} (c : Async Ω X) {C : Contract (Event A Ω) Event.Answer (List (Event A Ω))}
    (hwait : ∀ log, C.allows log .wait) (hnext : ∀ log e a, C.next log e a = log ++ [e]) :
    Prog.wp C log (await c) fun log' _ => ran log' = ran log := by
  have hkeep : Prog.wp C log (await c) fun log' _ => ran log' = ran log ∧ True := Prog.wp_lift
    (fun log' hlog' _ => ⟨hwait log', fun r _ => by rw [hnext, ran_append, hlog']; exact List.append_nil _⟩)
    (Prog.returns_true c) rfl
  exact Prog.wp_mono (fun _ _ h => h.1) hkeep

theorem runPipelines_append (ps ps' : List (Pipeline A Ω)) (conn : Conn A) :
    runPipelines (ps ++ ps') conn = runPipelines ps conn >>= runPipelines ps' := by
  induction ps generalizing conn with
  | nil => rfl
  | cons p rest ih =>
      cases hh : conn.halted with
      | true =>
          rw [runPipelines_halted _ hh, runPipelines_halted _ hh]
          exact (runPipelines_halted ps' hh).symm
      | false =>
          rw [List.cons_append]
          unfold runPipelines
          rw [hh, if_neg Bool.false_ne_true, if_neg Bool.false_ne_true]
          have hrest : (runPipelines (rest ++ ps') : Conn A → Run A Ω (Conn A))
              = fun c => runPipelines rest c >>= runPipelines ps' := funext ih
          rw [hrest]
          exact congrArg (Prog.emit _) (funext fun _ => (Prog.bind_assoc _ _ _).symm)

/-- Pipelines that are the first of the registered ones may run, and all have unless one halts. -/
theorem wp_runPipelines {ps : List (Pipeline A Ω)}
    (hps : ps.map some <+: names.map fun name => pipelines.lookup name) :
    ∀ (rest : List (Pipeline A Ω)) (log : List (Event A Ω)) (conn : Conn A), ran log ++ rest = ps →
      Prog.wp (failsClosed pipelines names) log (runPipelines rest conn) fun log' c =>
        c.halted = false → ran log' = ps := by
  intro rest
  induction rest with
  | nil =>
      intro log conn hlog _
      rw [← hlog, List.append_nil]
  | cons p rest ih =>
      intro log conn hlog
      cases hh : conn.halted with
      | true =>
          rw [runPipelines_halted _ hh]
          intro hc
          rw [hh] at hc
          cases hc
      | false =>
          unfold runPipelines
          rw [hh, if_neg Bool.false_ne_true]
          have hnext : (ran log ++ [p]) ++ rest = ps := by rw [List.append_assoc]; exact hlog
          refine ⟨?_, fun _ _ => ?_⟩
          · have hpre : ran log ++ [p] <+: ps := ⟨rest, hnext⟩
            exact (hpre.map some).trans hps
          · rw [Prog.wp_bind]
            refine Prog.wp_mono ?_ (wp_await _ (fun _ => trivial) fun _ _ _ => rfl)
            intro log' c hran
            refine ih log' c ?_
            rw [hran]
            show ran (log ++ [.pipeline p]) ++ rest = ps
            rw [ran_append]
            exact hnext

/-! ### Names -/

/-- Either every name is registered, or there is a first one that is not. -/
theorem names_split (pipelines : Pipelines A Ω) (names : List String) :
    (names.map (fun name => pipelines.lookup name)
        = (names.filterMap fun name => pipelines.lookup name).map some ∧
      ∀ name ∈ names, registered pipelines name = true) ∨
    ((∃ name ∈ names, registered pipelines name = false) ∧
      ∃ after ps, names.map (fun name => pipelines.lookup name)
          = (beforeMissing pipelines names).map some ++ none :: after ∧
        (names.filterMap fun name => pipelines.lookup name) = beforeMissing pipelines names ++ ps) := by
  induction names with
  | nil => exact Or.inl ⟨rfl, nofun⟩
  | cons name rest ih =>
      cases hp : pipelines.lookup name with
      | none =>
          have hnot : registered pipelines name = false := by unfold registered; rw [hp]; rfl
          refine Or.inr ⟨⟨name, List.mem_cons_self .., hnot⟩, rest.map fun name => pipelines.lookup name,
            rest.filterMap fun name => pipelines.lookup name, ?_, ?_⟩
          · unfold beforeMissing
            rw [List.takeWhile_cons_of_neg (by simp [hnot]), List.map_cons, hp]
            rfl
          · unfold beforeMissing
            rw [List.takeWhile_cons_of_neg (by simp [hnot]), List.filterMap_cons_none (f := fun name => pipelines.lookup name) hp]
            rfl
      | some p =>
          have hreg : registered pipelines name = true := by unfold registered; rw [hp]; rfl
          have hbefore : beforeMissing pipelines (name :: rest) = p :: beforeMissing pipelines rest := by
            unfold beforeMissing
            rw [List.takeWhile_cons_of_pos hreg, List.filterMap_cons_some (f := fun name => pipelines.lookup name) hp]
          rw [List.map_cons, List.filterMap_cons_some (f := fun name => pipelines.lookup name) hp, hbefore, hp]
          rcases ih with ⟨hmap, hall⟩ | ⟨⟨n, hn, hnot⟩, after, ps, hmap, hfilter⟩
          · refine Or.inl ⟨by rw [hmap]; rfl, ?_⟩
            rintro n (_ | ⟨_, hn⟩)
            · exact hreg
            · exact hall n hn
          · exact Or.inr ⟨⟨n, List.mem_cons_of_mem _ hn, hnot⟩, after, ps, by rw [hmap]; rfl,
              by rw [hfilter]; rfl⟩

/-! ### Executing a route -/

/--
A route with these pipelines fails closed exactly when every name is registered,
or the pipelines before the first that is not always halt.
-/
theorem failsClosed_iff (pipelines : Pipelines A Ω) (names : List String)
    (resolved : ResolvedRoute A Ω) (conn : Conn A)
    (hresolved : resolved.pipelines = names.filterMap fun name => pipelines.lookup name) :
    FailsClosed pipelines names resolved conn ↔
      (∀ name ∈ names, registered pipelines name = true) ∨
        AlwaysHalt (beforeMissing pipelines names) { conn with pathParams := resolved.pathParams } := by
  unfold FailsClosed ResolvedRoute.execute
  rw [Prog.wp_bind, hresolved]
  rcases names_split pipelines names with ⟨hmap, hall⟩ | ⟨⟨name, hname, hnot⟩, after, ps, hmap, hsplit⟩
  · refine ⟨fun _ => Or.inl hall, fun _ => ?_⟩
    have hpre : (names.filterMap fun name => pipelines.lookup name).map some
        <+: names.map fun name => pipelines.lookup name := by simp only [hmap, List.prefix_refl]
    have hrun := wp_runPipelines hpre _ [] { conn with pathParams := resolved.pathParams } rfl
    refine Prog.wp_mono ?_ hrun
    intro log c hran
    cases hh : c.halted with
    | true => exact trivial
    | false =>
        refine ⟨?_, fun _ _ => ?_⟩
        · show (ran log).map some = _
          rw [hran hh, hmap]
        · exact Prog.wp_mono (fun _ _ _ => trivial) (wp_await _ (fun _ => trivial) fun _ _ _ => rfl)
  · have hpre : (beforeMissing pipelines names).map some
        <+: names.map fun name => pipelines.lookup name := by rw [hmap]; exact List.prefix_append _ _
    have hrun := wp_runPipelines hpre _ [] { conn with pathParams := resolved.pathParams } rfl
    rw [hsplit, runPipelines_append, Prog.wp_bind]
    constructor
    · intro hwp
      refine Or.inr (Prog.returns_of_wp (fun _ _ _ => trivial)
        (Prog.wp_mono ?_ (Prog.wp_and hwp hrun)))
      rintro log c ⟨hnext, hran⟩
      by_contra hlive
      have hh : c.halted = false := by simpa using hlive
      have hran := hran hh
      -- what comes next is a pipeline or the handler, and neither is its turn
      cases ps with
      | nil =>
          have hfin : Prog.wp (failsClosed pipelines names) log (if c.halted then pure c
              else .emit .handler fun _ => await (resolved.handler.run c)) fun _ _ => True := hnext
          rw [hh, if_neg Bool.false_ne_true] at hfin
          have hlog : (ran log).map some = names.map fun name => pipelines.lookup name := hfin.1
          rw [hran, hmap] at hlog
          have := congrArg List.length hlog
          simp at this
      | cons p rest =>
          unfold runPipelines at hnext
          rw [hh, if_neg Bool.false_ne_true] at hnext
          have hlog : (ran log ++ [p]).map some <+: names.map fun name => pipelines.lookup name :=
            hnext.1
          rw [hran, hmap, List.map_append, List.prefix_append_right_inj] at hlog
          obtain ⟨more, hmore⟩ := hlog
          cases hmore
    · rintro (hall | hhalt)
      · rw [hall name hname] at hnot
        cases hnot
      · refine Prog.wp_mono ?_ (Prog.wp_returns hrun hhalt)
        rintro log c ⟨-, hh⟩
        rw [runPipelines_halted ps hh]
        show Prog.wp _ _ (if c.halted then pure c else _) _
        rw [if_pos hh]
        exact trivial

/-! ### The route of a scope -/

theorem scopeCall_routes (s : ScopeBuilder A Ω) (call : ScopeCall A Ω)
    (hs : ∀ route ∈ s.routes, route.pipelineNames = s.pipelineNames) :
    (call.apply s).pipelineNames = s.pipelineNames ∧
      ∀ route ∈ (call.apply s).routes, route.pipelineNames = s.pipelineNames := by
  have hadd : ∀ (s : ScopeBuilder A Ω) method path name handler,
      (∀ route ∈ s.routes, route.pipelineNames = s.pipelineNames) →
      ∀ route ∈ (s.addRoute method path name handler).routes, route.pipelineNames = s.pipelineNames := by
    intro s method path name handler hs route hroute
    rcases List.mem_append.mp hroute with hroute | hroute
    · exact hs route hroute
    · rw [List.mem_singleton.mp hroute]
  cases call with
  | route method path name plug => exact ⟨rfl, hadd s method path name (.plug plug) hs⟩
  | resources path controller =>
      refine ⟨rfl, ?_⟩
      exact hadd _ _ _ _ _ (hadd _ _ _ _ _ (hadd _ _ _ _ _ (hadd _ _ _ _ _ (hadd s _ _ _ _ hs))))

/-- Every route a scope's closure adds has the scope's pipelines. -/
theorem scopeCalls_routes (f : List (ScopeCall A Ω)) :
    ∀ s : ScopeBuilder A Ω, (∀ route ∈ s.routes, route.pipelineNames = s.pipelineNames) →
      ∀ route ∈ (f.foldl ScopeCall.apply s).routes, route.pipelineNames = s.pipelineNames := by
  induction f with
  | nil => intro s hs; exact hs
  | cons call rest ih =>
      intro s hs
      obtain ⟨hnames, hroutes⟩ := scopeCall_routes s call hs
      have := ih (call.apply s) (by rw [hnames]; exact hroutes)
      rw [hnames] at this
      exact this

/-- A builder call only adds routes. -/
theorem builderCalls_routes (calls : List (BuilderCall A Ω)) :
    ∀ r : MahaloRouter A Ω, r.routes <+: (calls.foldl BuilderCall.apply r).routes := by
  induction calls with
  | nil => intro r; exact List.prefix_rfl
  | cons call rest ih =>
      intro r
      refine List.IsPrefix.trans ?_ (ih (call.apply r))
      cases call with
      | pipeline p => exact List.prefix_rfl
      | scope scopePrefix pipelineNames f => exact List.prefix_append _ _
      | route method path plug name => exact List.prefix_append _ _

/-- A route that a scope registered, in the finished router. -/
theorem scoped_route (before after : List (BuilderCall A Ω)) (scopePrefix : String)
    (names : List String) (f : List (ScopeCall A Ω)) {idx : Nat}
    (hfrom : (build before).routes.length ≤ idx)
    (hto : idx < (build (before ++ [.scope scopePrefix names f])).routes.length) :
    ∃ route, (build (before ++ .scope scopePrefix names f :: after)).routes[idx]? = some route ∧
      route.pipelineNames = names := by
  have hall : build (before ++ .scope scopePrefix names f :: after)
      = after.foldl BuilderCall.apply (build (before ++ [.scope scopePrefix names f])) := by
    unfold build
    rw [← List.foldl_append, List.append_assoc]
    rfl
  obtain ⟨more, hmore⟩ := builderCalls_routes after (build (before ++ [.scope scopePrefix names f]))
  rw [hall, ← hmore, List.getElem?_append_left hto]
  have hscope : (build (before ++ [.scope scopePrefix names f])).routes
      = (build before).routes ++ (f.foldl ScopeCall.apply
          (.new (normalizePrefix scopePrefix) (parseSegments scopePrefix) names)).routes := by
    unfold build
    rw [List.foldl_append]
    rfl
  rw [hscope] at hto ⊢
  rw [List.getElem?_append_right hfrom]
  rw [List.length_append] at hto
  refine ⟨_, List.getElem?_eq_getElem (by omega), ?_⟩
  exact scopeCalls_routes f _ (by intro route h; cases h) _ (List.getElem_mem _)

theorem resolve_pipelines {matchit : Matchit} {r : MahaloRouter A Ω} {method : Method} {path : String}
    {idx : Nat} {params : List (String × String)} {route : Route A Ω} {resolved : ResolvedRoute A Ω}
    (hmatch : r.matchRoute matchit method path = .ok (some (idx, params)))
    (hroute : r.routes[idx]? = some route)
    (hresolve : r.resolve matchit method path = .ok (some resolved)) :
    resolved.pipelines = route.pipelineNames.filterMap fun name => r.pipelines.lookup name := by
  unfold MahaloRouter.resolve at hresolve
  rw [hmatch] at hresolve
  simp only [bind, Except.bind, hroute, pure, Except.pure] at hresolve
  cases hresolve
  rfl

/--
**Pipelines fail closed exactly when they are all there.**  For every router,
whatever chain of builder calls made it and whatever its cell holds, every
request that resolves to a route registered inside `scope(_, names, _)`, every
plug and every `Conn`: executing the route runs one registered pipeline for each
name, in order and before the handler, if and only if every name has a pipeline
in the finished router, or those before the first that has none always halt.
-/
theorem pipelines_fail_closed (matchit : Matchit) (before after : List (BuilderCall A Ω))
    (scopePrefix : String) (names : List String) (f : List (ScopeCall A Ω))
    (compiled : Option CompiledRouters) (method : Method) (path : String) (conn : Conn A) (idx : Nat)
    (params : List (String × String)) {r : MahaloRouter A Ω} {resolved : ResolvedRoute A Ω}
    (hr : r = { build (before ++ .scope scopePrefix names f :: after) with compiled })
    (hmatch : r.matchRoute matchit method path = .ok (some (idx, params)))
    (hfrom : (build before).routes.length ≤ idx)
    (hto : idx < (build (before ++ [.scope scopePrefix names f])).routes.length)
    (hresolve : r.resolve matchit method path = .ok (some resolved)) :
    FailsClosed r.pipelines names resolved conn ↔
      (∀ name ∈ names, registered r.pipelines name = true) ∨
        AlwaysHalt (beforeMissing r.pipelines names) { conn with pathParams := resolved.pathParams } := by
  obtain ⟨route, hroute, hnames⟩ := scoped_route before after scopePrefix names f hfrom hto
  have hroute' : r.routes[idx]? = some route := by rw [hr]; exact hroute
  have hpipelines := resolve_pipelines hmatch hroute' hresolve
  rw [hnames] at hpipelines
  exact failsClosed_iff r.pipelines names resolved conn hpipelines

/-! ### Two routers -/

/-- `matchit` on paths without parameters. -/
def exactPaths : Matchit where
  accepts := fun router path => !router.any fun (p, _) => p == path
  find := fun router path => (router.find? fun (p, _) => p == path).map fun (_, idx) => (idx, [])

/-- A pipeline that lets no one through. -/
def auth : Pipeline Unit Unit :=
  (Pipeline.new "auth").plug (.syncPlugFn fun conn => (conn.putStatus 401).halt)

def panel : Plug Unit Unit := .syncPlugFn id

def adminScope : BuilderCall Unit Unit := .scope "/admin" ["auth"] [.route .get "/panel" none panel]

def getPanel : Conn Unit := .new .get { path := "/admin/panel", query := none }

theorem pipelines_fail_closed_auth :
    ∃ resolved, (build [adminScope, .pipeline auth]).resolve exactPaths .get "/admin/panel"
        = .ok (some resolved) ∧
      FailsClosed (build [adminScope, .pipeline auth]).pipelines ["auth"] resolved getPanel := by
  refine ⟨_, rfl, (pipelines_fail_closed exactPaths [] [.pipeline auth] "/admin" ["auth"]
    [.route .get "/panel" none panel] none .get "/admin/panel" getPanel 0 [] rfl rfl (by decide)
    (by decide) rfl).mpr (Or.inl ?_)⟩
  intro name hname
  rw [List.mem_singleton.mp hname]
  rfl

/-- Nothing was registered as `auth`, and the handler is called at once. -/
theorem auth_dropped :
    ∃ resolved, (build [adminScope]).resolve exactPaths .get "/admin/panel" = .ok (some resolved) ∧
      (∃ k, resolved.execute getPanel = .emit .handler k) ∧
      ¬FailsClosed (build [adminScope]).pipelines ["auth"] resolved getPanel := by
  refine ⟨_, rfl, ⟨_, rfl⟩, ?_⟩
  intro hwp
  have hlog : (ran ([] : List (Event Unit Unit))).map some
      = ["auth"].map fun name => (build [adminScope]).pipelines.lookup name := hwp.1
  cases hlog

end Mahalo.Router
