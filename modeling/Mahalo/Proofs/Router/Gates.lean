/-
Pipelines as gates before a handler.

Whether the handler is called is decided by the `Conn` the pipelines leave, and the check
is made once behind the last of them.  So there are two rules: pipelines that always leave
a halted `Conn` refuse the request, and the handler is not called whatever comes in; and
pipelines that never do let it through, and the handler is called with what they leave.
After-plugs are behind both, and run for a request that was let through only.
-/
import Mahalo.Endpoint.Handler
import Mahalo.Proofs.Router.Compile
import Mahalo.Proofs.Router.Pipelines
import Mahalo.Proofs.Router.Wildcards

namespace Mahalo.Router

open Interactive Endpoint

variable {A Ω : Type}

/-- The handler is not called. -/
def Event.IsQuiet (e : Event A Ω) : Prop := e ≠ .handler

theorem await_quiet {X : Type} (c : Async Ω X) : (await c : Run A Ω X).Always Event.IsQuiet := by
  have hany : c.Always fun _ => True := by
    induction c with
    | ret a => trivial
    | emit e k ih => exact ⟨trivial, ih⟩
  exact Prog.always_lift (fun _ _ => nofun) hany

theorem runPipelines_quiet (ps : List (Pipeline A Ω)) (conn : Conn A) :
    (runPipelines ps conn).Always Event.IsQuiet := by
  induction ps generalizing conn with
  | nil => trivial
  | cons p rest ih =>
      unfold runPipelines
      split
      · trivial
      · exact ⟨(by simp [Event.IsQuiet]), fun _ => Prog.always_bind (await_quiet _) ih⟩

/-- A request that comes out of the pipelines of its route with `P`. -/
def Leave (resolved : ResolvedRoute A Ω) (conn : Conn A) (P : Conn A → Prop) : Prop :=
  (runPipelines resolved.pipelines { conn with pathParams := resolved.pathParams }).Returns P

/-- The run calls the handler just once, with a `Conn` that satisfies `P`, and goes on with what it returns. -/
def Calls (handler : Handler A Ω) (P : Conn A → Prop) (behind : Conn A → Run A Ω (Conn A))
    (run : Run A Ω (Conn A)) : Prop :=
  ∃ before : Run A Ω (Conn A), before.Always Event.IsQuiet ∧ before.Returns P ∧
    (∀ c, (behind c).Always Event.IsQuiet) ∧
    run = before >>= fun c => .emit .handler fun _ => await (handler.run c) >>= behind

/-- The after-plugs of an endpoint, on what a request has come to. -/
def afterPlugs (app : App A Ω) (conn : Conn A) : Run A Ω (Conn A) :=
  await (Pipeline.executeEach app.afterPlugs conn)

theorem afterPlugs_halted (app : App A Ω) {conn : Conn A} (h : conn.halted = true) :
    afterPlugs app conn = pure conn := by
  unfold afterPlugs
  cases app.afterPlugs with
  | nil => rfl
  | cons plug rest =>
      unfold Pipeline.executeEach
      rw [if_pos h]
      rfl

theorem executeRequest_eq {app : App A Ω} {conn : Conn A} {resolved : ResolvedRoute A Ω}
    (hresolved : app.router.resolve app.matchit conn.method conn.uri.path = .ok (some resolved))
    {run : Run A Ω (Conn A)} (hrun : app.executeRequest conn = .ok run) :
    run = resolved.execute conn >>= afterPlugs app := by
  unfold App.executeRequest at hrun
  rw [hresolved] at hrun
  cases hrun
  rfl

section

variable {app : App A Ω} {conn : Conn A} {resolved : ResolvedRoute A Ω}
  (hresolved : app.router.resolve app.matchit conn.method conn.uri.path = .ok (some resolved))
  {run : Run A Ω (Conn A)} (hrun : app.executeRequest conn = .ok run) {P : Conn A → Prop}

include hresolved hrun

/-- **A request that the pipelines halt is answered with what they leave**, and nothing behind them runs. -/
theorem executeRequest_refused (h : Leave resolved conn fun c => c.halted = true ∧ P c) :
    run.Always Event.IsQuiet ∧ run.Returns P := by
  have heq : run = runPipelines resolved.pipelines { conn with pathParams := resolved.pathParams } := by
    rw [executeRequest_eq hresolved hrun]
    unfold ResolvedRoute.execute
    rw [Prog.bind_assoc]
    refine (Prog.bind_congr_returns h fun c hc => ?_).trans (Prog.bind_pure _)
    rw [if_pos hc.1]
    exact afterPlugs_halted app hc.1
  rw [heq]
  exact ⟨runPipelines_quiet _ _, Prog.returns_mono (fun _ hc => hc.2) h⟩

/-- **A request that the pipelines do not halt is handled**, and then the after-plugs run. -/
theorem executeRequest_admitted (h : Leave resolved conn fun c => c.halted = false ∧ P c) :
    Calls resolved.handler P (afterPlugs app) run := by
  refine ⟨runPipelines resolved.pipelines { conn with pathParams := resolved.pathParams },
    runPipelines_quiet _ _, Prog.returns_mono (fun _ hc => hc.2) h, fun c => await_quiet _, ?_⟩
  rw [executeRequest_eq hresolved hrun]
  unfold ResolvedRoute.execute
  rw [Prog.bind_assoc]
  refine Prog.bind_congr_returns h fun c hc => ?_
  rw [hc.1, if_neg Bool.false_ne_true]
  rfl

end

/-! ### The route of a request -/

/-- Where the routes are plain, a request that has one matches its path. -/
theorem found_route {matchit : Matchit} (hmatchit : FindsPlain matchit) {r : MahaloRouter A Ω}
    (hplain : ∀ route ∈ r.routes, Plain route.matchitPath) (hcell : r.compiled = none) {method : Method} {path : String} {resolved : ResolvedRoute A Ω}
    (h : r.resolve matchit method path = .ok (some resolved)) :
    ∃ route ∈ r.routes, ∃ params, matchPattern route.matchitPath path = some params ∧
      resolved = resolvedAs r route params := by
  cases hcompile : r.compile matchit with
  | error e =>
      unfold MahaloRouter.resolve MahaloRouter.matchRoute at h
      rw [hcell, hcompile] at h
      cases h
  | ok c =>
      have hmatch := matchRoute_eq hcompile (Or.inl hcell) method path
      cases hfind : (c.forMethod method).bind fun router => matchit.find router path with
      | none =>
          rw [hfind] at hmatch
          rw [resolve_of_matchRoute_none hmatch] at h
          cases h
      | some found =>
          obtain ⟨idx, params⟩ := found
          rw [hfind] at hmatch
          obtain ⟨router, hrouter, hfound⟩ := Option.bind_eq_some_iff.mp hfind
          have hmethod : served method ∈ routeMethods := by
            by_contra hnot
            rw [forMethod_eq_none c hnot] at hrouter
            cases hrouter
          obtain ⟨hentries, haccepted⟩ := compile_forMethod hcompile hmethod
          obtain rfl := Option.some.inj (hentries.symm.trans hrouter)
          have hentries' : ∀ entry ∈ entries method r.routes 0, Plain entry.1 := by
            intro entry hentry
            obtain ⟨route, hroute, -, hpath⟩ := mem_entries.mp hentry
            rw [← hpath]
            exact hplain route (List.mem_of_getElem? hroute)
          obtain ⟨pattern, hmem, hpattern⟩ := hmatchit haccepted hentries' hfound
          obtain ⟨route, hroute, -, rfl⟩ := mem_entries.mp hmem
          rw [resolve_of_matchRoute hmatch hroute] at h
          cases h
          exact ⟨route, List.mem_of_getElem? hroute, params, hpattern, rfl⟩

/-! ### What the pipelines leave -/

/-- One pipeline after the other. -/
theorem runPipelines_cons {p : Pipeline A Ω} {rest : List (Pipeline A Ω)} {conn : Conn A} {P Q : Conn A → Prop}
    (hlive : conn.halted = false) (hp : (p.execute conn).Returns P)
    (hrest : ∀ c, P c → (runPipelines rest c).Returns Q) : (runPipelines (p :: rest) conn).Returns Q := by
  unfold runPipelines
  rw [hlive, if_neg Bool.false_ne_true]
  exact fun _ => Prog.returns_bind (Prog.returns_lift hp) hrest

end Mahalo.Router
