/-
Route resolution and the scan it stands for.

The documented meaning of a list of routes is a scan: the first in registration
order whose method and pattern match.  `matchit` answers with the most specific of
the patterns that match, wherever it was registered.  The two agree on a request
exactly when no route behind the first that matches is more specific than it.
A pattern is any that `matchit` takes, with parameters, catch-alls and braces as text.
-/
import Mahalo.Proofs.Router.Compile
import Mahalo.Proofs.Router.Wildcards

namespace Mahalo.Router

variable {A Ω : Type}

/-! ### The scan -/

/-- The route is one for the request's method, and its pattern matches the path. -/
def Route.Matches (route : Route A Ω) (method : Method) (path : String) : Prop :=
  route.method = served method ∧ (matchWildcards route.matchitPath path).isSome

instance (route : Route A Ω) (method : Method) (path : String) :
    Decidable (route.Matches method path) :=
  inferInstanceAs (Decidable (_ ∧ _))

/-- The index of the first route that matches, from `idx` on, and the parameters. -/
def scanFrom (method : Method) (path : String) : Nat → List (Route A Ω) → Option (Nat × PathParams)
  | _, [] => none
  | idx, route :: rest =>
      if route.method = served method then
        ((matchWildcards route.matchitPath path).map fun params => (idx, params)).or
          (scanFrom method path (idx + 1) rest)
      else scanFrom method path (idx + 1) rest

def scan (routes : List (Route A Ω)) (method : Method) (path : String) : Option (Nat × PathParams) :=
  scanFrom method path 0 routes

/-- `i` is the first route that matches. -/
structure First (routes : List (Route A Ω)) (method : Method) (path : String) (i : Nat)
    (route : Route A Ω) : Prop where
  get : routes[i]? = some route
  isMatch : route.Matches method path
  before : ∀ j other, j < i → routes[j]? = some other → ¬other.Matches method path

/-- No route behind the first that matches is more specific than it. -/
def FirstPreferred (routes : List (Route A Ω)) (method : Method) (path : String) : Prop :=
  ∀ i first j later, First routes method path i first → i < j → routes[j]? = some later →
    later.Matches method path →
      preferred later.matchitPath first.matchitPath = false

theorem scanFrom_cons (method : Method) (path : String) (idx : Nat) (route : Route A Ω)
    (rest : List (Route A Ω)) :
    (∃ params, route.method = served method ∧ matchWildcards route.matchitPath path = some params ∧
        scanFrom method path idx (route :: rest) = some (idx, params)) ∨
      (¬route.Matches method path ∧
        scanFrom method path idx (route :: rest) = scanFrom method path (idx + 1) rest) := by
  rw [scanFrom]
  by_cases hm : route.method = served method
  · rw [if_pos hm]
    cases hp : matchWildcards route.matchitPath path with
    | none => exact Or.inr ⟨fun h => by simpa [hp] using h.2, rfl⟩
    | some params => exact Or.inl ⟨params, hm, rfl, rfl⟩
  · rw [if_neg hm]
    exact Or.inr ⟨fun h => hm h.1, rfl⟩

/-- The scan finds the first route that matches, or there is none. -/
theorem scanFrom_cases (method : Method) (path : String) (routes : List (Route A Ω)) :
    ∀ idx, (∃ i route params, First routes method path i route ∧
        matchWildcards route.matchitPath path = some params ∧
        scanFrom method path idx routes = some (idx + i, params)) ∨
      ((∀ route ∈ routes, ¬route.Matches method path) ∧ scanFrom method path idx routes = none) := by
  induction routes with
  | nil => intro idx; exact Or.inr ⟨fun route h => (List.not_mem_nil h).elim, rfl⟩
  | cons route rest ih =>
      intro idx
      obtain ⟨params, hmethod, hmatch, hscan⟩ | ⟨hnot, hscan⟩ := scanFrom_cons method path idx route rest
      · refine Or.inl ⟨0, route, params, ⟨rfl, ⟨hmethod, by rw [hmatch]; rfl⟩, ?_⟩, hmatch, hscan⟩
        intro j other hj
        exact absurd hj (Nat.not_lt_zero j)
      · rw [hscan]
        obtain ⟨i, r, params, hfirst, hmatch, hrest⟩ | ⟨hnone, hrest⟩ := ih (idx + 1)
        · refine Or.inl ⟨i + 1, r, params, ⟨hfirst.get, hfirst.isMatch, ?_⟩, hmatch, ?_⟩
          · intro j other hj hother
            cases j with
            | zero =>
                obtain rfl : route = other := Option.some.inj hother
                exact hnot
            | succ j => exact hfirst.before j other (Nat.lt_of_succ_lt_succ hj) hother
          · rw [hrest]
            congr 2
            omega
        · refine Or.inr ⟨?_, hrest⟩
          intro r hr
          obtain rfl | hr := List.mem_cons.mp hr
          · exact hnot
          · exact hnone r hr

/-! ### What is found -/

/-- Paths that were taken do not conflict. -/
theorem accepted_pairwise {matchit : Matchit} (hmatchit : StaticFirst matchit) (router : Inserted) :
    Accepted matchit router → router.Pairwise fun a b => conflict a.1 b.1 = false := by
  induction router using List.reverseRecOn with
  | nil => intro _; exact List.Pairwise.nil
  | append_singleton router entry ih =>
      intro haccepted
      have hrouter : Accepted matchit router := by
        intro before e after h
        refine haccepted before e (after ++ [entry]) ?_
        rw [h, List.append_assoc, List.cons_append]
      refine List.pairwise_append.mpr ⟨ih hrouter, List.pairwise_singleton _ _, ?_⟩
      intro a ha b hb
      rw [List.mem_singleton.mp hb]
      exact hmatchit.refuses (haccepted router entry [] rfl) ha

/-- No two routes for one method conflict. -/
theorem entries_distinct {matchit : Matchit} (hmatchit : StaticFirst matchit)
    {routes : List (Route A Ω)} {method : Method}
    (haccepted : Accepted matchit (entries method routes 0)) {i j : Nat} {ri rj : Route A Ω}
    (hi : routes[i]? = some ri) (hj : routes[j]? = some rj) (hmi : ri.method = served method)
    (hmj : rj.method = served method) (hne : i ≠ j) :
    conflict ri.matchitPath rj.matchitPath = false := by
  have hpairs := accepted_pairwise hmatchit _ haccepted
  have hsymm : Std.Symm fun a b : String × Nat => conflict a.1 b.1 = false :=
    ⟨fun a b h => (conflict_comm b.1 a.1).trans h⟩
  have hmemi : (ri.matchitPath, i) ∈ entries method routes 0 := mem_entries.mpr ⟨ri, hi, hmi, rfl⟩
  have hmemj : (rj.matchitPath, j) ∈ entries method routes 0 := mem_entries.mpr ⟨rj, hj, hmj, rfl⟩
  have hij : (ri.matchitPath, i) ≠ (rj.matchitPath, j) := fun h => hne (Prod.mk.inj h).2
  have hdistinct := hpairs.forall hmemi hmemj hij
  exact hdistinct

/-- A route that matches, and that no other one which does is preferred to. -/
structure Best (routes : List (Route A Ω)) (method : Method) (path : String) (j : Nat)
    (route : Route A Ω) : Prop where
  get : routes[j]? = some route
  isMatch : route.Matches method path
  best : ∀ (k : Nat) other, routes[k]? = some other → other.Matches method path →
    preferred other.matchitPath route.matchitPath = false

/-- The first route that matches is the best one exactly when none behind it is preferred. -/
theorem first_is_best {matchit : Matchit} (hmatchit : StaticFirst matchit)
    {routes : List (Route A Ω)} {method : Method} {path : String}
    (haccepted : Accepted matchit (entries method routes 0)) {i j : Nat} {first found : Route A Ω}
    (hfirst : First routes method path i first) (hbest : Best routes method path j found) :
    j = i ↔ FirstPreferred routes method path := by
  constructor
  · rintro rfl k first' l later hfirst' - hlater hmatch
    obtain hlt | rfl | hgt := Nat.lt_trichotomy k j
    · exact absurd hfirst'.isMatch (hfirst.before k first' hlt hfirst'.get)
    · obtain rfl : found = first' := Option.some.inj (hbest.get.symm.trans hfirst'.get)
      exact hbest.best l later hlater hmatch
    · exact absurd hfirst.isMatch (hfirst'.before j first hgt hfirst.get)
  · intro hpreferred
    by_contra hne
    have hlt : i < j := by
      by_contra hge
      exact hfirst.before j found (by omega) hbest.get hbest.isMatch
    have hnot := hpreferred i first j found hfirst hlt hbest.get hbest.isMatch
    have hnot' := hbest.best i first hfirst.get hfirst.isMatch
    obtain h | h | h := preferred_total hfirst.isMatch.2 hbest.isMatch.2
    · cases hnot'.symm.trans h
    · cases hnot.symm.trans h
    · have hdistinct := entries_distinct hmatchit haccepted hfirst.get hbest.get hfirst.isMatch.1
        hbest.isMatch.1 fun h => hne h.symm
      cases hdistinct.symm.trans h

/-! ### `resolve` -/

/-- `resolve` answers with the route at this index and these parameters, or with none. -/
structure ResolvesAs (matchit : Matchit) (r : MahaloRouter A Ω) (method : Method) (path : String)
    (answer : Option (Nat × PathParams)) : Prop where
  matchRoute : r.matchRoute matchit method path = .ok answer
  resolve : r.resolve matchit method path
    = .ok (answer.bind fun a => (r.routes[a.1]?).map fun route => resolvedAs r route a.2)

theorem resolvesAs_none {matchit : Matchit} {r : MahaloRouter A Ω} {method : Method} {path : String}
    (h : r.matchRoute matchit method path = .ok none) : ResolvesAs matchit r method path none :=
  ⟨h, resolve_of_matchRoute_none h⟩

theorem resolvesAs_some {matchit : Matchit} {r : MahaloRouter A Ω} {method : Method} {path : String}
    {idx : Nat} {params : PathParams} {route : Route A Ω}
    (h : r.matchRoute matchit method path = .ok (some (idx, params)))
    (hroute : r.routes[idx]? = some route) :
    ResolvesAs matchit r method path (some (idx, params)) := by
  refine ⟨h, ?_⟩
  rw [resolve_of_matchRoute h hroute, Option.bind_some, hroute]
  rfl

/-- The answer is a best route, or there is none that matches. -/
theorem resolvesAs_best {matchit : Matchit} (hmatchit : StaticFirst matchit) {r : MahaloRouter A Ω}
    {c : CompiledRouters} (hcompile : r.compile matchit = .ok c) (hcell : CellOf r c)
    {method : Method} (hmethod : served method ∈ routeMethods) (path : String) :
    (∃ j route params, Best r.routes method path j route ∧
        matchWildcards route.matchitPath path = some params ∧
        ResolvesAs matchit r method path (some (j, params))) ∨
      ((∀ route ∈ r.routes, ¬route.Matches method path) ∧ ResolvesAs matchit r method path none) := by
  obtain ⟨hrouter, haccepted⟩ := compile_forMethod hcompile hmethod
  have hmatch := matchRoute_eq hcompile hcell method path
  rw [hrouter, Option.bind_some] at hmatch
  cases hfind : matchit.find (entries method r.routes 0) path with
  | none =>
      rw [hfind] at hmatch
      refine Or.inr ⟨?_, resolvesAs_none hmatch⟩
      intro route hroute hmatches
      obtain ⟨i, hi⟩ := List.mem_iff_getElem?.mp hroute
      have hsome := hmatchit.complete haccepted
        (mem_entries.mpr ⟨route, hi, hmatches.1, rfl⟩) hmatches.2
      rw [hfind] at hsome
      cases hsome
  | some found =>
      obtain ⟨j, params⟩ := found
      rw [hfind] at hmatch
      obtain ⟨pattern, hmem, hparams, hbest⟩ := hmatchit.prefers haccepted hfind
      obtain ⟨route, hroute, hroutemethod, rfl⟩ := mem_entries.mp hmem
      refine Or.inl ⟨j, route, params, ⟨hroute, ⟨hroutemethod, by rw [hparams]; rfl⟩, ?_⟩, hparams,
        resolvesAs_some hmatch hroute⟩
      intro k other hother hothermatch
      exact hbest _ k (mem_entries.mpr ⟨other, hother, hothermatch.1, rfl⟩) hothermatch.2

theorem scan_none {matchit : Matchit} {r : MahaloRouter A Ω} {method : Method} {path : String}
    (hnone : ∀ route ∈ r.routes, ¬route.Matches method path)
    (hfound : ResolvesAs matchit r method path none) :
    (ResolvesAs matchit r method path (scan r.routes method path) ↔
        FirstPreferred r.routes method path) ∧
      (r.resolve matchit method path = .ok none ↔ ∀ route ∈ r.routes, ¬route.Matches method path) := by
  have hno : ∀ i first, ¬First r.routes method path i first := fun i first h =>
    hnone first (List.mem_of_getElem? h.get) h.isMatch
  obtain ⟨i, first, -, hfirst, -, -⟩ | ⟨-, hscan⟩ := scanFrom_cases method path r.routes 0
  · exact absurd hfirst (hno i first)
  · rw [show scan r.routes method path = none from hscan]
    refine ⟨⟨fun _ i first _ _ h => absurd h (hno i first), fun _ => hfound⟩, ?_⟩
    exact ⟨fun _ => hnone, fun _ => hfound.resolve⟩

/--
**The first route wins exactly when no later one is more specific.**  For every
list of routes that `compile` takes, every method and every path: `resolve`
answers as the scan in registration order does if and only if no route behind the
first that matches is more specific than it; and it answers with none if and only
if no route matches.
-/
theorem resolve_scans_iff (matchit : Matchit) (hmatchit : StaticFirst matchit)
    (r : MahaloRouter A Ω) (hmethods : ∀ route ∈ r.routes, route.method ∈ routeMethods)
    (c : CompiledRouters) (hcompile : r.compile matchit = .ok c) (hcell : CellOf r c)
    (method : Method) (path : String) :
    (ResolvesAs matchit r method path (scan r.routes method path) ↔
        FirstPreferred r.routes method path) ∧
      (r.resolve matchit method path = .ok none ↔ ∀ route ∈ r.routes, ¬route.Matches method path) := by
  by_cases hmethod : served method ∈ routeMethods
  · obtain ⟨-, haccepted⟩ := compile_forMethod hcompile hmethod
    obtain ⟨j, found, params, hbest, hparams, hfound⟩ | ⟨hnone, hfound⟩ :=
      resolvesAs_best hmatchit hcompile hcell hmethod path
    · have hmem : found ∈ r.routes := List.mem_of_getElem? hbest.get
      obtain ⟨i, first, params', hfirst, hparams', hscan⟩ | ⟨hnone, -⟩ :=
        scanFrom_cases method path r.routes 0
      · rw [Nat.zero_add] at hscan
        rw [show scan r.routes method path = _ from hscan,
          ← first_is_best hmatchit haccepted hfirst hbest]
        refine ⟨⟨?_, ?_⟩, ?_, ?_⟩
        · intro h
          have hsame := Except.ok.inj (hfound.matchRoute.symm.trans h.matchRoute)
          exact (Prod.mk.inj (Option.some.inj hsame)).1
        · rintro rfl
          obtain rfl : found = first := Option.some.inj (hbest.get.symm.trans hfirst.get)
          obtain rfl : params = params' := Option.some.inj (hparams.symm.trans hparams')
          exact hfound
        · intro h
          have hresolve := hfound.resolve
          rw [h, Option.bind_some, hbest.get] at hresolve
          cases hresolve
        · intro h
          exact absurd hbest.isMatch (h found hmem)
      · exact absurd hbest.isMatch (hnone found hmem)
    · exact scan_none hnone hfound
  · have hnone : ∀ route ∈ r.routes, ¬route.Matches method path := fun route hroute hmatch =>
      hmethod (hmatch.1 ▸ hmethods route hroute)
    refine scan_none hnone (resolvesAs_none ?_)
    rw [matchRoute_eq hcompile hcell, forMethod_eq_none c hmethod]
    rfl

/-! ### A parameter in front of static text -/

/-- Two GET routes, in this order. -/
def twoRoutes (path path' : String) : MahaloRouter Unit Unit :=
  build [.route .get path (.syncPlugFn id) none, .route .get path' (.syncPlugFn id) none]

theorem resolve_scans_iff_me :
    ResolvesAs preferStatic (twoRoutes "/users/me" "/users/:id") .get "/users/me"
      (scan (twoRoutes "/users/me" "/users/:id").routes .get "/users/me") := by
  have hmethods : ∀ route ∈ (twoRoutes "/users/me" "/users/:id").routes,
      route.method ∈ routeMethods := by
    have hall : (twoRoutes "/users/me" "/users/:id").routes.all
        (fun route => decide (route.method ∈ routeMethods)) = true := by decide +kernel
    simpa using hall
  refine (resolve_scans_iff preferStatic preferStatic_staticFirst (twoRoutes "/users/me" "/users/:id")
    hmethods { CompiledRouters.empty with get := [("/users/me", 0), ("/users/\x7bid\x7d", 1)] } rfl
    (Or.inl rfl) .get "/users/me").1.mpr ?_
  intro i first j later hfirst hlt hlater _
  have hj : j < 2 := (List.getElem?_eq_some_iff.mp hlater).1
  obtain ⟨rfl, rfl⟩ : i = 0 ∧ j = 1 := by omega
  have hpaths : (twoRoutes "/users/me" "/users/:id").routes.map Route.matchitPath
      = ["/users/me", "/users/\x7bid\x7d"] := by decide +kernel
  have hfirst' : "/users/me" = first.matchitPath := by
    have := congrArg (fun paths => paths[0]?) hpaths
    simpa [hfirst.get] using this.symm
  have hlater' : "/users/\x7bid\x7d" = later.matchitPath := by
    have := congrArg (fun paths => paths[1]?) hpaths
    simpa [hlater] using this.symm
  rw [← hfirst', ← hlater']
  decide +kernel

/-- The second route answers, though the first was registered before it and matches too. -/
theorem users_me_shadowed :
    scan (twoRoutes "/users/:id" "/users/me").routes .get "/users/me"
        = some (0, [("id", "me")]) ∧
      (twoRoutes "/users/:id" "/users/me").matchRoute preferStatic .get "/users/me"
        = .ok (some (1, [])) ∧
      ¬ResolvesAs preferStatic (twoRoutes "/users/:id" "/users/me") .get "/users/me"
        (scan (twoRoutes "/users/:id" "/users/me").routes .get "/users/me") := by
  have hscan : scan (twoRoutes "/users/:id" "/users/me").routes .get "/users/me"
      = some (0, [("id", "me")]) := by decide +kernel
  have hmatch : (twoRoutes "/users/:id" "/users/me").matchRoute preferStatic .get "/users/me"
      = .ok (some (1, [])) := by rfl
  refine ⟨hscan, hmatch, ?_⟩
  intro h
  have hsame := Except.ok.inj (hmatch.symm.trans h.matchRoute)
  rw [hscan] at hsame
  cases hsame

end Mahalo.Router
