/-
Halting is global over a request.

The check for a halted `Conn` is written four times: inside a pipeline, between
pipelines, before the handler and between after-plugs.  Together they are one early
exit over the flat list of everything a request goes through.  Which plugs take the
synchronous path makes no difference, as long as they keep to the contract of
`call_sync`.

The answer to a request without a route is not part of that: it is put together
before any check, so a `Conn` that comes in halted is answered 404 all the same,
and only the after-plugs behind it are skipped.
-/
import Mahalo.Endpoint.Handler
import Mahalo.Lib.EarlyExit
import Mahalo.Proofs.Router.Pipelines

namespace Mahalo.Endpoint

open Interactive Router EarlyExit

variable {A Ω : Type}

/-! ### The contract of `call_sync` -/

/-- `Ok` with what `call` returns, or `Err` with the `Conn` unchanged. -/
def Plug.KeepsContract (plug : Plug A Ω) : Prop :=
  ∀ conn, plug.callSync conn = (plug.call conn >>= fun c => pure (.ok c)) ∨
    plug.callSync conn = pure (.error conn)

/-- Then both paths do what `call` does. -/
theorem plug_run {plug : Plug A Ω} (h : Plug.KeepsContract plug) (conn : Conn A) :
    plug.run conn = plug.call conn := by
  unfold Plug.run
  rcases h conn with hok | herr
  · rw [hok, Prog.bind_assoc]
    exact Prog.bind_pure (plug.call conn)
  · rw [herr]
    rfl

/-! ### The flat list -/

/-- A plug or an action, called without its synchronous path. -/
def Handler.call : Handler A Ω → Conn A → Async Ω (Conn A)
  | .plug p, conn => p.call conn
  | .controller c action, conn => c.callAction action conn

def Handler.KeepsContract : Handler A Ω → Prop
  | .plug p => Plug.KeepsContract p
  | .controller .. => True

theorem handler_run {handler : Handler A Ω} (h : Handler.KeepsContract handler) :
    handler.run = Handler.call handler := by
  funext conn
  cases handler with
  | plug p => exact plug_run h conn
  | controller c action => rfl

/-- The plugs of the pipelines, the handler, and the after-plugs. -/
def routeSteps (resolved : ResolvedRoute A Ω) : List (Handler A Ω) :=
  (resolved.pipelines.flatMap fun p => p.plugs.map .plug) ++ [resolved.handler]

def App.afterSteps (app : App A Ω) : List (Handler A Ω) := app.afterPlugs.map .plug

/-- One run from left to right that stops as soon as the `Conn` is halted. -/
def runFlat (steps : List (Conn A → Async Ω (Conn A))) : Conn A → Async Ω (Conn A) :=
  runUntil Conn.halted steps

theorem runFlat_append (steps steps' : List (Conn A → Async Ω (Conn A))) (conn : Conn A) :
    runFlat (steps ++ steps') conn = runFlat steps conn >>= runFlat steps' :=
  runUntil_append Conn.halted steps steps' conn

theorem runFlat_halted (steps : List (Conn A → Async Ω (Conn A))) {conn : Conn A}
    (h : conn.halted = true) : runFlat steps conn = pure conn :=
  runUntil_stopped Conn.halted steps h

/-- The same with every call on the record. -/
def tracedFlat (steps : List (Conn A → Async Ω (Conn A))) (conn : Conn A) :
    Prog (Traced Unit (Conn A)) (Traced.Answer fun _ => Ω) (Conn A) :=
  traced Conn.halted 0 steps conn

/-! ### The four loops -/

/-- A run without its marks. -/
def unmark : ∀ e : Router.Event A Ω, e.Answer ⊕ ((_ : Unit) × (Ω → e.Answer))
  | .wait => .inr ⟨(), fun r => r⟩
  | .pipeline _ => .inl ()
  | .handler => .inl ()

def waits {X : Type} (run : Run A Ω X) : Async Ω X := run.hide unmark

theorem waits_await {X : Type} (c : Async Ω X) : waits (Router.await (A := A) c) = c := by
  unfold waits Router.await
  refine Prog.hide_lift ?_ c
  intro e
  exact ⟨fun r => r, rfl, fun _ => rfl⟩

theorem waits_bind {X Y : Type} (run : Run A Ω X) (f : X → Run A Ω Y) :
    waits (run >>= f) = waits run >>= fun x => waits (f x) := Prog.hide_bind ..

theorem executeEach_flat (plugs : List (Plug A Ω)) :
    Pipeline.executeEach plugs = runFlat ((plugs.map .plug).map Handler.run) := by
  funext conn
  induction plugs generalizing conn with
  | nil => rfl
  | cons plug rest ih =>
      unfold Pipeline.executeEach
      rw [funext ih]
      rfl

theorem runPipelines_flat (ps : List (Pipeline A Ω)) :
    ∀ conn, waits (runPipelines ps conn) =
      runFlat ((ps.flatMap fun p => p.plugs.map .plug).map Handler.run) conn := by
  induction ps with
  | nil => intro conn; rfl
  | cons p rest ih =>
      intro conn
      rw [List.flatMap_cons, List.map_append, runFlat_append]
      unfold runPipelines
      by_cases hh : conn.halted = true
      · rw [if_pos hh, runFlat_halted _ hh]
        exact (runFlat_halted _ hh).symm
      · rw [if_neg hh]
        show waits (Router.await (p.execute conn) >>= runPipelines rest) = _
        rw [waits_bind, waits_await, Pipeline.execute, executeEach_flat]
        exact congrArg (_ >>= ·) (funext ih)

/-- A route is one run over the plugs of its pipelines and its handler, whichever path these take. -/
theorem execute_flat (resolved : ResolvedRoute A Ω) (conn : Conn A) :
    waits (resolved.execute conn) = runFlat ((routeSteps resolved).map Handler.run)
      { conn with pathParams := resolved.pathParams } := by
  unfold ResolvedRoute.execute
  rw [waits_bind, runPipelines_flat, routeSteps, List.map_append, runFlat_append]
  refine congrArg (_ >>= ·) (funext fun conn => ?_)
  by_cases hh : conn.halted = true
  · rw [if_pos hh]
    exact (runFlat_halted _ hh).symm
  · rw [if_neg hh]
    have hone : runFlat [resolved.handler.run] conn = resolved.handler.run conn := by
      refine (if_neg hh).trans ?_
      exact Prog.bind_pure _
    show waits (Router.await (resolved.handler.run conn)) = _
    rw [waits_await]
    exact hone.symm

/-- The steps of a route, with every call on the record. -/
def routeRecord (resolved : ResolvedRoute A Ω) (conn : Conn A) :
    Prog (Traced Unit (Conn A)) (Traced.Answer fun _ => Ω) (Conn A) :=
  tracedFlat ((routeSteps resolved).map Handler.run) { conn with pathParams := resolved.pathParams }

theorem hide_routeRecord (resolved : ResolvedRoute A Ω) (conn : Conn A) :
    (routeRecord resolved conn).hide untrace = waits (resolved.execute conn) :=
  (hide_traced Conn.halted _ 0 _).trans (execute_flat resolved conn).symm

theorem map_run {steps : List (Handler A Ω)} (h : ∀ step ∈ steps, Handler.KeepsContract step) :
    steps.map Handler.run = steps.map Handler.call :=
  List.map_congr_left fun step hstep => handler_run (h step hstep)

theorem afterPlugs_flat (app : App A Ω) (h : ∀ step ∈ app.afterSteps, Handler.KeepsContract step)
    (conn : Conn A) : waits (Router.await (A := A) (Pipeline.executeEach app.afterPlugs conn)) =
      runFlat (app.afterSteps.map Handler.call) conn := by
  rw [waits_await, executeEach_flat, ← map_run h]
  rfl

/-! ### The whole request -/

/-- The run is one early exit over these steps, each called in turn and on a `Conn` that is not halted. -/
structure IsEarlyExit (run : Run A Ω (Conn A)) (steps : List (Conn A → Async Ω (Conn A)))
    (conn : Conn A) : Prop where
  flat : waits run = runFlat steps conn
  record : (tracedFlat steps conn).hide untrace = runFlat steps conn
  inOrder : Prog.wp (inOrder Conn.halted) 0 (tracedFlat steps conn) fun n conn' =>
    conn'.halted = true ∨ n = steps.length

theorem isEarlyExit_of_flat {run : Run A Ω (Conn A)} {steps : List (Conn A → Async Ω (Conn A))}
    {conn : Conn A} (h : waits run = runFlat steps conn) : IsEarlyExit run steps conn where
  flat := h
  record := hide_traced Conn.halted steps 0 conn
  inOrder := by
    refine Prog.wp_mono ?_ (traced_inOrder Conn.halted steps 0 conn)
    rintro n conn' (hhalt | hn)
    · exact Or.inl hhalt
    · exact Or.inr (hn.trans (Nat.zero_add _))

/-- The answer to a request without a route, as a step. -/
def App.notFoundStep (app : App A Ω) : Conn A → Async Ω (Conn A) := fun conn => pure (app.notFound conn)

/-- Everything a request goes through that has a synchronous path. -/
def App.requestSteps (app : App A Ω) (resolved : Option (ResolvedRoute A Ω)) : List (Handler A Ω) :=
  (resolved.elim [] routeSteps) ++ app.afterSteps

/--
A request with a route is one run over the plugs of its pipelines, its handler and the
after-plugs.  One without is answered first, and then one run over the after-plugs, so
that for a `Conn` that does not come in halted the answer is the first step of the run.
-/
def App.HaltsGlobally (app : App A Ω) (conn : Conn A) (run : Run A Ω (Conn A)) :
    Option (ResolvedRoute A Ω) → Prop
  | some resolved =>
      IsEarlyExit run ((routeSteps resolved ++ app.afterSteps).map Handler.call)
        { conn with pathParams := resolved.pathParams }
  | none =>
      IsEarlyExit run (app.afterSteps.map Handler.call) (app.notFound conn) ∧
        (conn.halted = false →
          IsEarlyExit run (app.notFoundStep :: app.afterSteps.map Handler.call) conn)

/-- **Halting is global over the whole request.** -/
theorem halting_is_global (app : App A Ω) (conn : Conn A) {resolved : Option (ResolvedRoute A Ω)}
    (hresolve : app.router.resolve app.matchit conn.method conn.uri.path = .ok resolved)
    (hsteps : ∀ step ∈ app.requestSteps resolved, Handler.KeepsContract step) :
    ∃ run, app.executeRequest conn = .ok run ∧ app.HaltsGlobally conn run resolved := by
  have hafter := afterPlugs_flat app fun step hstep => hsteps step (List.mem_append_right _ hstep)
  unfold App.executeRequest
  rw [hresolve]
  refine ⟨_, rfl, ?_⟩
  cases resolved with
  | some resolved =>
      have hroute : (routeSteps resolved).map Handler.run = (routeSteps resolved).map Handler.call :=
        map_run fun step hstep => hsteps step (List.mem_append_left _ hstep)
      refine isEarlyExit_of_flat ?_
      show waits (resolved.execute conn >>= _) = _
      rw [waits_bind, execute_flat, hroute, List.map_append, runFlat_append]
      exact congrArg (_ >>= ·) (funext hafter)
  | none =>
      have hflat := hafter (app.notFound conn)
      refine ⟨isEarlyExit_of_flat hflat, fun hlive => isEarlyExit_of_flat ?_⟩
      refine Eq.trans hflat (Eq.symm ?_)
      refine (if_neg ?_).trans rfl
      rw [hlive]
      exact Bool.false_ne_true

/-- A route behind a pipeline that halts, and an after-plug that would undo its answer. -/
def guardedApp : App Unit Unit where
  matchit := exactPaths
  router := build [adminScope, .pipeline auth]
  errorHandler := none
  afterPlugs := [.syncPlugFn fun conn => conn.putStatus 200]

theorem syncPlugFn_keeps (f : Conn A → Conn A) : Plug.KeepsContract (Plug.syncPlugFn f : Plug A Ω) :=
  fun _ => Or.inl rfl

def panelResolved : ResolvedRoute Unit Unit :=
  { pathParams := [], pipelines := [auth], handler := .plug panel }

theorem halting_is_global_auth : ∃ run, guardedApp.executeRequest getPanel = .ok run ∧
    guardedApp.HaltsGlobally getPanel run (some panelResolved) := by
  refine halting_is_global guardedApp getPanel rfl ?_
  intro step hstep
  have hsync : ∃ f, step = .plug (.syncPlugFn f) := by
    simp only [App.requestSteps, Option.elim_some, routeSteps, panelResolved, App.afterSteps,
      guardedApp, auth, Pipeline.plug, Pipeline.new, List.nil_append, List.flatMap_cons,
      List.flatMap_nil, List.map_cons, List.map_nil, List.append_nil, List.cons_append,
      List.mem_cons, List.not_mem_nil, or_false] at hstep
    rcases hstep with rfl | rfl | rfl <;> exact ⟨_, rfl⟩
  obtain ⟨f, rfl⟩ := hsync
  exact syncPlugFn_keeps f

/-- A request without a route, halted before anything ran. -/
def haltedMissing : Conn Unit :=
  { (Conn.new .get { path := "/missing", query := none } : Conn Unit) with halted := true }

/-- It is answered 404, where a run that stops at once would return it as it came. -/
theorem halted_is_answered : ∃ run, guardedApp.executeRequest haltedMissing = .ok run ∧
    guardedApp.router.resolve guardedApp.matchit haltedMissing.method haltedMissing.uri.path = .ok none ∧
    waits run ≠ runFlat (guardedApp.notFoundStep :: guardedApp.afterSteps.map Handler.call)
      haltedMissing := by
  refine ⟨_, rfl, rfl, ?_⟩
  intro h
  have hsame : guardedApp.notFound haltedMissing = haltedMissing := by
    injection h
  have hstatus : (404 : Nat) = 200 := congrArg Conn.status hsame
  omega

end Mahalo.Endpoint
