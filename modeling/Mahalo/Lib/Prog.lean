/-
Programs that act on their environment one event at a time.

A program either returns or emits an event and goes on with the answer, so the
environment gets a turn between any two events.  A contract watches the events
and their answers in a state of its own (a log of the events, say): it says which
events a program may emit, and which answers the program may count on.  `wp` asks
that the program keeps the first for every answer within the second, and that
what it ends with satisfies a postcondition.  Its rules follow the program's
structure, and `wp_emit` is what a system that runs the program one event at a
time uses of it.
-/
import Mathlib.Data.List.Basic

namespace Interactive

universe u v w

/-- Return a result, or emit an event and go on with its answer. -/
inductive Prog (E : Type u) (R : E → Type v) (A : Type w)
  | ret (a : A)
  | emit (e : E) (k : R e → Prog E R A)

/-- What a program may emit, what answers it may count on, and how the watching state moves on. -/
structure Contract (E : Type u) (R : E → Type v) (T : Type*) where
  allows : T → E → Prop
  answers : T → (e : E) → R e → Prop
  next : T → (e : E) → R e → T

namespace Prog

variable {E : Type u} {R : E → Type v} {A B : Type w}

def bind : Prog E R A → (A → Prog E R B) → Prog E R B
  | .ret a, f => f a
  | .emit e k, f => .emit e fun r => bind (k r) f

instance : Monad (Prog E R) where
  pure := .ret
  bind := bind

/-- Emit one event and return its answer. -/
def perform (e : E) : Prog E R (R e) := .emit e .ret

/-- A program over one kind of events, as a program over another. -/
def lift {E' : Type u} {R' : E' → Type v} (f : E → E') (g : ∀ e, R' (f e) → R e) :
    Prog E R A → Prog E' R' A
  | .ret a => .ret a
  | .emit e k => .emit (f e) fun r => lift f g (k (g e r))

/-- A program with some of its events answered on the spot, and the others renamed. -/
def hide {E' : Type u} {R' : E' → Type v} (f : ∀ e, R e ⊕ ((e' : E') × (R' e' → R e))) :
    Prog E R A → Prog E' R' A
  | .ret a => .ret a
  | .emit e k =>
      match f e with
      | .inl r => hide f (k r)
      | .inr ⟨e', g⟩ => .emit e' fun r => hide f (k (g r))

/-- The result under an environment that gives `answer n e` to the `n`-th event `e`. -/
def eval (answer : Nat → ∀ e, R e) : Nat → Prog E R A → A
  | _, .ret a => a
  | n, .emit e k => eval answer (n + 1) (k (answer n e))

/-- Every result the program can end with satisfies `P`. -/
def Returns (P : A → Prop) : Prog E R A → Prop
  | .ret a => P a
  | .emit _ k => ∀ r, Returns P (k r)

theorem bind_assoc {D : Type w} (p : Prog E R A) (f : A → Prog E R B) (g : B → Prog E R D) :
    (p >>= f) >>= g = p >>= fun a => f a >>= g := by
  induction p with
  | ret a => rfl
  | emit e k ih => exact congrArg (Prog.emit e) (funext fun r => ih r)

theorem bind_pure (p : Prog E R A) : p >>= pure = p := by
  induction p with
  | ret a => rfl
  | emit e k ih => exact congrArg (Prog.emit e) (funext ih)

theorem lift_bind {E' : Type u} {R' : E' → Type v} {f : E → E'} {g : ∀ e, R' (f e) → R e}
    (p : Prog E R A) (q : A → Prog E R B) :
    lift f g (p >>= q) = lift f g p >>= fun a => lift f g (q a) := by
  induction p with
  | ret a => rfl
  | emit e k ih => exact congrArg (Prog.emit (f e)) (funext fun r => ih (g e r))

section

variable {E' : Type u} {R' : E' → Type v} {f : ∀ e, R e ⊕ ((e' : E') × (R' e' → R e))} {e : E}

theorem hide_emit_inl {r : R e} (h : f e = .inl r) (k : R e → Prog E R A) :
    hide f (.emit e k) = hide f (k r) := by
  simp only [hide, h]

theorem hide_emit_inr {e' : E'} {g : R' e' → R e} (h : f e = .inr ⟨e', g⟩)
    (k : R e → Prog E R A) : hide f (.emit e k) = .emit e' fun r => hide f (k (g r)) := by
  simp only [hide, h]

theorem hide_bind (p : Prog E R A) (q : A → Prog E R B) :
    hide f (p >>= q) = hide f p >>= fun a => hide f (q a) := by
  induction p with
  | ret a => rfl
  | emit e k ih =>
      show hide f (.emit e fun r => k r >>= q) = _
      cases hf : f e with
      | inl r =>
          rw [hide_emit_inl hf, hide_emit_inl hf]
          exact ih r
      | inr renamed =>
          rw [hide_emit_inr hf, hide_emit_inr hf]
          exact congrArg (Prog.emit renamed.1) (funext fun r => ih (renamed.2 r))

/-- Lifting a program into more events, and hiding those again, gives it back. -/
theorem hide_lift {f : E → E'} {g : ∀ e, R' (f e) → R e}
    {h : ∀ e', R' e' ⊕ ((e : E) × (R e → R' e'))}
    (hh : ∀ e, ∃ g', h (f e) = .inr ⟨e, g'⟩ ∧ ∀ r, g e (g' r) = r) (p : Prog E R A) :
    hide h (lift f g p) = p := by
  induction p with
  | ret a => rfl
  | emit e k ih =>
      obtain ⟨g', hf, hg⟩ := hh e
      unfold lift
      rw [hide_emit_inr hf]
      refine congrArg (Prog.emit e) (funext fun r => ?_)
      simp only [hg r]
      exact ih r

end

variable {T : Type*}

/-- The program keeps the contract, and ends in `Q`. -/
def wp (C : Contract E R T) (t : T) : Prog E R A → (T → A → Prop) → Prop
  | .ret a, Q => Q t a
  | .emit e k, Q => C.allows t e ∧ ∀ r, C.answers t e r → wp C (C.next t e r) (k r) Q

variable {C : Contract E R T} {t : T}

@[simp] theorem wp_ret {a : A} {Q : T → A → Prop} : wp C t (.ret a) Q ↔ Q t a := Iff.rfl

@[simp] theorem wp_pure {a : A} {Q : T → A → Prop} :
    wp C t (pure a : Prog E R A) Q ↔ Q t a := Iff.rfl

theorem wp_emit {e : E} {k : R e → Prog E R A} {Q : T → A → Prop} :
    wp C t (.emit e k) Q ↔
      C.allows t e ∧ ∀ r, C.answers t e r → wp C (C.next t e r) (k r) Q := Iff.rfl

/-- A program after another starts from the state the first one leaves. -/
@[simp] theorem wp_bind {p : Prog E R A} {f : A → Prog E R B} {Q : T → B → Prop} :
    wp C t (p >>= f) Q ↔ wp C t p fun t' a => wp C t' (f a) Q := by
  induction p generalizing t with
  | ret a => exact Iff.rfl
  | emit e k ih =>
      refine and_congr_right fun _ => forall_congr' fun r => ?_
      exact imp_congr_right fun _ => ih r

theorem wp_mono {p : Prog E R A} {Q Q' : T → A → Prop} (hQ : ∀ t a, Q t a → Q' t a)
    (hp : wp C t p Q) : wp C t p Q' := by
  induction p generalizing t with
  | ret a => exact hQ t a hp
  | emit e k ih => exact ⟨hp.1, fun r hr => ih r (hp.2 r hr)⟩

/-- A lifted program keeps whatever each of its events keeps, and returns what it returns. -/
theorem wp_lift {E' : Type u} {R' : E' → Type v} {C' : Contract E' R' T} {f : E → E'}
    {g : ∀ e, R' (f e) → R e} {I : T → Prop} {P : A → Prop}
    (hI : ∀ t, I t → ∀ e,
      C'.allows t (f e) ∧ ∀ r, C'.answers t (f e) r → I (C'.next t (f e) r)) {p : Prog E R A}
    (hp : p.Returns P) (h0 : I t) : wp C' t (lift f g p) fun t' a => I t' ∧ P a := by
  induction p generalizing t with
  | ret a => exact ⟨h0, hp⟩
  | emit e k ih =>
      obtain ⟨hallow, hnext⟩ := hI t h0 e
      exact ⟨hallow, fun r hr => ih (g e r) (hp (g e r)) (hnext r hr)⟩

theorem wp_and {p : Prog E R A} {Q Q' : T → A → Prop} (h : wp C t p Q) (h' : wp C t p Q') :
    wp C t p fun t a => Q t a ∧ Q' t a := by
  induction p generalizing t with
  | ret a => exact ⟨h, h'⟩
  | emit e k ih => exact ⟨h.1, fun r hr => ih r (h.2 r hr) (h'.2 r hr)⟩

/-- What holds of every result holds at the end, beside what the contract gives. -/
theorem wp_returns {p : Prog E R A} {Q : T → A → Prop} {P : A → Prop} (h : wp C t p Q)
    (hp : p.Returns P) : wp C t p fun t a => Q t a ∧ P a := by
  induction p generalizing t with
  | ret a => exact ⟨h, hp⟩
  | emit e k ih => exact ⟨h.1, fun r hr => ih r (h.2 r hr) (hp r)⟩

/-- Where any answer may come, what holds at every end holds of every result. -/
theorem returns_of_wp (hany : ∀ t e r, C.answers t e r) {p : Prog E R A} {P : A → Prop}
    (h : wp C t p fun _ a => P a) : p.Returns P := by
  induction p generalizing t with
  | ret a => exact h
  | emit e k ih => exact fun r => ih r (h.2 r (hany t e r))

theorem returns_true (p : Prog E R A) : p.Returns fun _ => True := by
  induction p with
  | ret a => trivial
  | emit e k ih => exact fun r => ih r

/-! ### Events, whatever the answers -/

/-- Every event the program can emit satisfies `P`. -/
def Always (P : E → Prop) : Prog E R A → Prop
  | .ret _ => True
  | .emit e k => P e ∧ ∀ r, Always P (k r)

theorem always_bind {P : E → Prop} {p : Prog E R A} {f : A → Prog E R B} (hp : p.Always P)
    (hf : ∀ a, (f a).Always P) : (p >>= f).Always P := by
  induction p with
  | ret a => exact hf a
  | emit e k ih => exact ⟨hp.1, fun r => ih r (hp.2 r)⟩

theorem always_lift {E' : Type u} {R' : E' → Type v} {f : E → E'} {g : ∀ e, R' (f e) → R e}
    {P : E → Prop} {P' : E' → Prop} (hf : ∀ e, P e → P' (f e)) {p : Prog E R A} (hp : p.Always P) :
    (lift f g p).Always P' := by
  induction p with
  | ret a => trivial
  | emit e k ih => exact ⟨hf e hp.1, fun r => ih (g e r) (hp.2 (g e r))⟩

theorem returns_mono {P Q : A → Prop} (hPQ : ∀ a, P a → Q a) {p : Prog E R A} (hp : p.Returns P) :
    p.Returns Q := by
  induction p with
  | ret a => exact hPQ a hp
  | emit e k ih => exact fun r => ih r (hp r)

theorem returns_bind {P : A → Prop} {Q : B → Prop} {p : Prog E R A} {f : A → Prog E R B} (hp : p.Returns P)
    (hf : ∀ a, P a → (f a).Returns Q) : (p >>= f).Returns Q := by
  induction p with
  | ret a => exact hf a hp
  | emit e k ih => exact fun r => ih r (hp r)

theorem returns_lift {E' : Type u} {R' : E' → Type v} {f : E → E'} {g : ∀ e, R' (f e) → R e} {P : A → Prop}
    {p : Prog E R A} (hp : p.Returns P) : (lift f g p).Returns P := by
  induction p with
  | ret a => exact hp
  | emit e k ih => exact fun r => ih (g e r) (hp (g e r))

/-- What comes behind a program is only to be looked at for what it returns. -/
theorem bind_congr_returns {P : A → Prop} {p : Prog E R A} {f g : A → Prog E R B} (hp : p.Returns P)
    (hfg : ∀ a, P a → f a = g a) : p >>= f = p >>= g := by
  induction p with
  | ret a => exact hfg a hp
  | emit e k ih => exact congrArg (Prog.emit e) (funext fun r => ih r (hp r))

/-- A program whose every event keeps `I` keeps it. -/
theorem wp_always {I : T → Prop} {P : E → Prop} {p : Prog E R A}
    (hI : ∀ t e, P e → I t → C.allows t e ∧ ∀ r, I (C.next t e r)) (hp : p.Always P) (h0 : I t) :
    wp C t p fun t' _ => I t' := by
  induction p generalizing t with
  | ret a => exact h0
  | emit e k ih =>
      obtain ⟨hallow, hnext⟩ := hI t e hp.1 h0
      exact ⟨hallow, fun r _ => ih r (hp.2 r) (hnext r)⟩

/-! ### A run with given answers -/

section

variable {X Y : Type v}

/-- Given these answers in turn, the program emits these events and returns. -/
inductive Runs : Prog E (fun _ => X) A → List X → List E → A → Prop
  | ret (a : A) : Runs (.ret a) [] [] a
  | emit {e : E} {k : X → Prog E (fun _ => X) A} {x : X} {xs : List X} {es : List E} {a : A}
      (h : Runs (k x) xs es a) : Runs (.emit e k) (x :: xs) (e :: es) a

theorem runs_ret {a b : A} {xs : List X} {es : List E}
    (h : Runs (.ret a : Prog E (fun _ => X) A) xs es b) : xs = [] ∧ es = [] ∧ b = a := by
  cases h
  exact ⟨rfl, rfl, rfl⟩

/-- The first of two programs runs, and then the second. -/
theorem runs_bind {p : Prog E (fun _ => X) A} {f : A → Prog E (fun _ => X) B} {xs : List X}
    {es : List E} {b : B} (h : Runs (p >>= f) xs es b) :
    ∃ xs₁ xs₂ es₁ es₂ a, xs = xs₁ ++ xs₂ ∧ es = es₁ ++ es₂ ∧ Runs p xs₁ es₁ a ∧ Runs (f a) xs₂ es₂ b := by
  induction p generalizing xs es with
  | ret a => exact ⟨[], xs, [], es, a, rfl, rfl, .ret a, h⟩
  | emit e k ih =>
      change Runs (.emit e fun x => k x >>= f) xs es b at h
      cases h with
      | @emit _ _ x xs es _ h =>
          obtain ⟨xs₁, xs₂, es₁, es₂, a, rfl, rfl, hp, hf⟩ := ih x h
          exact ⟨x :: xs₁, xs₂, e :: es₁, es₂, a, rfl, rfl, .emit hp, hf⟩

theorem runs_lift {E' : Type u} {f : E → E'} {g : Y → X} {p : Prog E (fun _ => X) A} {ys : List Y}
    {es : List E'} {a : A} (h : Runs (lift f (fun _ => g) p) ys es a) :
    ∃ es₀, es = es₀.map f ∧ Runs p (ys.map g) es₀ a := by
  induction p generalizing ys es with
  | ret b =>
      obtain ⟨rfl, rfl, rfl⟩ := runs_ret h
      exact ⟨[], rfl, .ret a⟩
  | emit e k ih =>
      unfold lift at h
      cases h with
      | @emit _ _ y ys es _ h =>
          obtain ⟨es₀, rfl, hp⟩ := ih (g y) h
          exact ⟨e :: es₀, rfl, .emit hp⟩

theorem runs_always {P : E → Prop} {p : Prog E (fun _ => X) A} (hp : p.Always P) {xs : List X}
    {es : List E} {a : A} (h : Runs p xs es a) : ∀ e ∈ es, P e := by
  induction h with
  | ret a => intro e he; cases he
  | @emit e k x xs es a _ ih =>
      intro e' he
      obtain rfl | he := List.mem_cons.mp he
      · exact hp.1
      · exact ih (hp.2 x) e' he

theorem runs_returns {P : A → Prop} {p : Prog E (fun _ => X) A} (hp : p.Returns P) {xs : List X}
    {es : List E} {a : A} (h : Runs p xs es a) : P a := by
  induction h with
  | ret a => exact hp
  | emit _ ih => exact ih (hp _)

end

end Prog

end Interactive
