/-
What `compile` hands to `matchit`.

The router of a method gets the routes of that method, in the order in which they
were registered, each with its index; a HEAD request is looked up among the GET
routes.  `resolve` then answers with the route at the index that is found.
-/
import Mahalo.Proofs.Router.Matchit

namespace Mahalo.Router

variable {A Ω : Type}

/-- The method whose routes a request is matched against. -/
def served (method : Method) : Method := if method = .head then .get else method

/-- The methods that routes can be registered for. -/
def routeMethods : List Method := [.get, .post, .put, .patch, .delete]

/-- What `compile` inserts for a method. -/
def entries (method : Method) (routes : List (Route A Ω)) (idx : Nat) : Inserted :=
  ((routes.zipIdx idx).filter fun (route, _) => route.method = served method).map
    fun (route, i) => (route.matchitPath, i)

theorem entries_cons (method : Method) (route : Route A Ω) (rest : List (Route A Ω)) (idx : Nat) :
    entries method (route :: rest) idx
      = (if route.method = served method then [(route.matchitPath, idx)] else [])
        ++ entries method rest (idx + 1) := by
  unfold entries
  rw [List.zipIdx_cons]
  by_cases h : route.method = served method <;> simp [h]

theorem mem_entries {method : Method} {routes : List (Route A Ω)} {pattern : String} {i : Nat} :
    (pattern, i) ∈ entries method routes 0 ↔
      ∃ route, routes[i]? = some route ∧ route.method = served method ∧ route.matchitPath = pattern := by
  unfold entries
  simp only [List.mem_map, List.mem_filter, List.mem_zipIdx_iff_getElem?, decide_eq_true_eq,
    Prod.mk.injEq, Prod.exists]
  constructor
  · rintro ⟨route, j, ⟨hroute, hmethod⟩, hpath, rfl⟩
    exact ⟨route, hroute, hmethod, hpath⟩
  · rintro ⟨route, hroute, hmethod, hpath⟩
    exact ⟨route, i, ⟨hroute, hmethod⟩, hpath, rfl⟩

/-! ### The loop of `compile` -/

private theorem into_ok {matchit : Matchit} {router : Inserted} {path : String}
    {c c' : CompiledRouters} (h : (if matchit.accepts router path then Except.ok c
      else Except.error Panic.conflict) = .ok c') :
    matchit.accepts router path = true ∧ c = c' := by
  by_cases ha : matchit.accepts router path = true
  · rw [if_pos ha] at h
    exact ⟨ha, Except.ok.inj h⟩
  · rw [if_neg ha] at h
    cases h

/-- One round appends to the router of the route's method, and `matchit` took the path. -/
theorem insert_forMethod {matchit : Matchit} {c c' : CompiledRouters} {idx : Nat} {route : Route A Ω}
    (h : c.insert matchit idx route = .ok c') {method : Method} {router : Inserted}
    (hrouter : c.forMethod method = some router) :
    c'.forMethod method = some (router
        ++ if route.method = served method then [(route.matchitPath, idx)] else []) ∧
      (route.method = served method → matchit.accepts router route.matchitPath = true) := by
  unfold CompiledRouters.insert at h
  cases hm : route.method <;> simp only [hm] at h
  case get | post | put | patch | delete =>
    obtain ⟨ha, rfl⟩ := into_ok h
    cases method <;> simp_all [CompiledRouters.forMethod, served]
  -- routes of any other method are passed over
  all_goals
    obtain rfl := Except.ok.inj h
    cases method <;> simp_all [CompiledRouters.forMethod, served]

theorem insertFrom_forMethod {matchit : Matchit} (routes : List (Route A Ω)) :
    ∀ {c c' : CompiledRouters} {idx : Nat}, c.insertFrom matchit idx routes = .ok c' →
      ∀ {method : Method} {router : Inserted}, c.forMethod method = some router →
        Accepted matchit router →
        c'.forMethod method = some (router ++ entries method routes idx) ∧
          Accepted matchit (router ++ entries method routes idx) := by
  induction routes with
  | nil =>
      intro c c' idx h method router hrouter haccepted
      obtain rfl := Except.ok.inj h
      rw [show entries method ([] : List (Route A Ω)) idx = [] from rfl, List.append_nil]
      exact ⟨hrouter, haccepted⟩
  | cons route rest ih =>
      intro c c' idx h method router hrouter haccepted
      rw [CompiledRouters.insertFrom] at h
      cases hinsert : c.insert matchit idx route with
      | error e =>
          rw [hinsert] at h
          cases h
      | ok c₁ =>
          rw [hinsert] at h
          obtain ⟨hrouter₁, haccepts⟩ := insert_forMethod hinsert hrouter
          have haccepted₁ : Accepted matchit (router
              ++ if route.method = served method then [(route.matchitPath, idx)] else []) := by
            by_cases hm : route.method = served method
            · rw [if_pos hm]
              exact accepted_append haccepted (haccepts hm)
            · rw [if_neg hm, List.append_nil]
              exact haccepted
          have hrest := ih h hrouter₁ haccepted₁
          rw [entries_cons, ← List.append_assoc]
          exact hrest

/-- The router that `compile` builds for a method. -/
theorem compile_forMethod {matchit : Matchit} {r : MahaloRouter A Ω} {c : CompiledRouters}
    (h : r.compile matchit = .ok c) {method : Method} (hmethod : served method ∈ routeMethods) :
    c.forMethod method = some (entries method r.routes 0) ∧
      Accepted matchit (entries method r.routes 0) := by
  have hempty : CompiledRouters.empty.forMethod method = some [] := by
    cases method <;> first | rfl | simp [served, routeMethods] at hmethod
  exact insertFrom_forMethod r.routes h hempty (accepted_nil matchit)

theorem forMethod_eq_none (c : CompiledRouters) {method : Method}
    (hmethod : served method ∉ routeMethods) : c.forMethod method = none := by
  cases method <;> first | rfl | simp [served, routeMethods] at hmethod

/-! ### `resolve` -/

/-- The cell is empty, or holds what `compile` gives. -/
def CellOf (r : MahaloRouter A Ω) (c : CompiledRouters) : Prop :=
  r.compiled = none ∨ r.compiled = some c

/-- The answer for a route that was found. -/
def resolvedAs (r : MahaloRouter A Ω) (route : Route A Ω) (params : PathParams) : ResolvedRoute A Ω :=
  { pathParams := params
    pipelines := route.pipelineNames.filterMap fun name => r.pipelines.lookup name
    handler := route.handler }

theorem matchRoute_eq {matchit : Matchit} {r : MahaloRouter A Ω} {c : CompiledRouters}
    (hcompile : r.compile matchit = .ok c) (hcell : CellOf r c) (method : Method) (path : String) :
    r.matchRoute matchit method path
      = .ok ((c.forMethod method).bind fun router => matchit.find router path) := by
  unfold MahaloRouter.matchRoute
  obtain hcell | hcell := hcell <;> rw [hcell]
  · rw [hcompile]
    rfl
  · rfl

/-- A key is looked up among the route's own, and is the same string there. -/
theorem find_key_getD (keys : List String) (k : String) : (keys.find? (· == k)).getD k = k := by
  cases h : keys.find? (· == k) with
  | none => rfl
  | some key => simpa using List.find?_some h

theorem resolve_of_matchRoute {matchit : Matchit} {r : MahaloRouter A Ω} {method : Method}
    {path : String} {idx : Nat} {params : PathParams} {route : Route A Ω}
    (hmatch : r.matchRoute matchit method path = .ok (some (idx, params)))
    (hroute : r.routes[idx]? = some route) :
    r.resolve matchit method path = .ok (some (resolvedAs r route params)) := by
  unfold MahaloRouter.resolve resolvedAs
  rw [hmatch]
  simp [bind, Except.bind, hroute, pure, Except.pure, find_key_getD]

theorem resolve_of_matchRoute_none {matchit : Matchit} {r : MahaloRouter A Ω} {method : Method}
    {path : String} (hmatch : r.matchRoute matchit method path = .ok none) :
    r.resolve matchit method path = .ok none := by
  unfold MahaloRouter.resolve
  rw [hmatch]
  rfl

end Mahalo.Router
