/-
Steps in a row, with an early exit.

A list of steps runs from left to right and stops as soon as the state says so.
`runUntil_append` is what makes loops over loops one loop: a run over two lists is
a run over the first and then over the second, whoever checks in between.
`traced` is the same run with every call of a step on the record, and
`traced_inOrder` is what an early exit promises of that record: each step is called
in its turn and on a state that does not stop, and the run ends stopped or with all
of them called.
-/
import Mahalo.Lib.Prog

namespace EarlyExit

open Interactive

universe u v

variable {E : Type u} {R : E → Type v} {S : Type u} (stop : S → Bool)

def runUntil : List (S → Prog E R S) → S → Prog E R S
  | [], s => pure s
  | step :: rest, s => if stop s then pure s else step s >>= runUntil rest

theorem runUntil_stopped (steps : List (S → Prog E R S)) {s : S} (h : stop s = true) :
    runUntil stop steps s = pure s := by
  cases steps with
  | nil => rfl
  | cons step rest => exact if_pos h

theorem runUntil_append (steps steps' : List (S → Prog E R S)) :
    ∀ s, runUntil stop (steps ++ steps') s = runUntil stop steps s >>= runUntil stop steps' := by
  induction steps with
  | nil => intro s; rfl
  | cons step rest ih =>
      intro s
      rw [List.cons_append]
      unfold runUntil
      by_cases hs : stop s = true
      · rw [if_pos hs, if_pos hs]
        exact (runUntil_stopped stop steps' hs).symm
      · rw [if_neg hs, if_neg hs, Prog.bind_assoc]
        exact congrArg (step s >>= ·) (funext ih)

/-! ### Every call on the record -/

/-- The call of the `i`-th step on a state, or an event of a step. -/
inductive Traced (E S : Type u)
  | call (i : Nat) (s : S)
  | inner (e : E)

def Traced.Answer (R : E → Type v) : Traced E S → Type v
  | .call .. => PUnit
  | .inner e => R e

def Traced.unwrap (e : E) : Traced.Answer R (.inner e : Traced E S) → R e := fun r => r

/-- A step whose events go into the record. -/
def recorded (p : Prog E R S) : Prog (Traced E S) (Traced.Answer R) S := p.lift .inner Traced.unwrap

def traced : Nat → List (S → Prog E R S) → S → Prog (Traced E S) (Traced.Answer R) S
  | _, [], s => pure s
  | i, step :: rest, s =>
      if stop s then pure s
      else .emit (.call i s) fun _ => recorded (step s) >>= traced (i + 1) rest

/-- A step that stops is the last that is called. -/
theorem traced_stopping {i : Nat} {step : S → Prog E R S} {s s' : S} (hs : stop s = false)
    (hstep : step s = pure s') (hstop : stop s' = true) (rest : List (S → Prog E R S)) :
    traced stop i (step :: rest) s = .emit (.call i s) fun _ => pure s' := by
  unfold traced
  rw [if_neg (by simp [hs]), hstep]
  refine congrArg (Prog.emit _) (funext fun _ => ?_)
  show traced stop (i + 1) rest s' = pure s'
  cases rest with
  | nil => rfl
  | cons step' rest => exact if_pos hstop

theorem traced_append (steps steps' : List (S → Prog E R S)) : ∀ i s,
    traced stop i (steps ++ steps') s = traced stop i steps s >>= traced stop (i + steps.length) steps' := by
  induction steps with
  | nil => intro i s; rfl
  | cons step rest ih =>
      intro i s
      rw [List.cons_append]
      unfold traced
      by_cases hs : stop s = true
      · rw [if_pos hs, if_pos hs]
        show pure s = traced stop _ steps' s
        cases steps' with
        | nil => rfl
        | cons step' rest' => exact (if_pos hs).symm
      · rw [if_neg hs, if_neg hs]
        refine congrArg (Prog.emit _) (funext fun _ => ?_)
        show recorded (step s) >>= traced stop (i + 1) (rest ++ steps') = (_ >>= _) >>= _
        rw [Prog.bind_assoc, List.length_cons, Nat.add_comm rest.length 1, ← Nat.add_assoc]
        exact congrArg (_ >>= ·) (funext fun s' => ih (i + 1) s')

/-- The record taken off again. -/
def untrace : ∀ e : Traced E S, e.Answer R ⊕ ((e' : E) × (R e' → e.Answer R))
  | .call .. => .inl ⟨⟩
  | .inner e => .inr ⟨e, fun r => r⟩

theorem hide_recorded (p : Prog E R S) : Prog.hide untrace (recorded p) = p := by
  unfold recorded
  refine Prog.hide_lift ?_ p
  intro e
  exact ⟨fun r => r, rfl, fun _ => rfl⟩

theorem hide_traced (steps : List (S → Prog E R S)) :
    ∀ i s, Prog.hide untrace (traced stop i steps s) = runUntil stop steps s := by
  induction steps with
  | nil => intro i s; rfl
  | cons step rest ih =>
      intro i s
      unfold traced runUntil
      by_cases hs : stop s = true
      · rw [if_pos hs, if_pos hs]
        rfl
      · rw [if_neg hs, if_neg hs]
        show Prog.hide untrace (recorded (step s) >>= traced stop (i + 1) rest) = _
        rw [Prog.hide_bind, hide_recorded]
        exact congrArg (step s >>= ·) (funext fun s' => ih (i + 1) s')

/-- Steps are called in their order, each on a state that does not stop. -/
def inOrder : Contract (Traced E S) (Traced.Answer R) Nat where
  allows := fun n e =>
    match e with
    | .call i s => i = n ∧ stop s = false
    | .inner _ => True
  answers := fun _ _ _ => True
  next := fun n e _ =>
    match e with
    | .call .. => n + 1
    | .inner _ => n

/-- **No step is called on a stopped state, and none is skipped before the first.** -/
theorem traced_inOrder (steps : List (S → Prog E R S)) :
    ∀ i s, Prog.wp (inOrder stop) i (traced stop i steps s) fun n s' =>
      stop s' = true ∨ n = i + steps.length := by
  induction steps with
  | nil => intro i s; exact Or.inr rfl
  | cons step rest ih =>
      intro i s
      unfold traced
      by_cases hs : stop s = true
      · rw [if_pos hs]
        exact Or.inl hs
      · rw [if_neg hs]
        refine ⟨⟨rfl, by simpa using hs⟩, fun _ _ => ?_⟩
        rw [Prog.wp_bind]
        have hsame : Prog.wp (inOrder stop) (i + 1) (recorded (step s)) fun n _ => n = i + 1 ∧ True :=
          Prog.wp_lift (I := (· = i + 1)) (fun n hn e => ⟨trivial, fun _ _ => hn⟩)
            (Prog.returns_true _) rfl
        refine Prog.wp_mono ?_ hsame
        rintro n s' ⟨rfl, -⟩
        refine Prog.wp_mono ?_ (ih (i + 1) s')
        rintro n s'' (hstop | hn)
        · exact Or.inl hstop
        · exact Or.inr (by rw [hn, List.length_cons]; omega)

end EarlyExit
