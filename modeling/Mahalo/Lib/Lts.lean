/-
Transition systems whose nondeterminism lives in the labels.

A component is a state, and a partial function that takes the state and a label
to the next state.  The label says everything the component does not decide
itself: which party moves, what arrives, what an allocator or a peer answers.  A
run is then a list of labels, so it can be executed, and "for every
interleaving" is "for every list of labels".

Seven rules are all the developments above need.  An invariant that a step keeps
holds after every run; the same with a relation between the labels taken so far
and the state; both again for runs whose steps meet a condition on the state they
start from; what comes about in one kind of step only; what a part of the state does, where the steps of the part are
those of a system of its own; that a run with other labels is the run with what
they stand for; and a relation between the state and a record that is kept beside
the run, for what the state itself does not remember.
-/
import Mathlib.Data.List.Induction

namespace Lts

/-- A state, and what one label makes of it; `none` where the label is not enabled. -/
structure System (S A : Type*) where
  init : S
  step : S → A → Option S

variable {S A : Type*} {M : System S A}

/-- The state a list of labels leads to, if every one of them is enabled in turn. -/
def System.exec (M : System S A) : S → List A → Option S
  | s, [] => some s
  | s, a :: rest => (M.step s a).bind fun s' => M.exec s' rest

@[simp] theorem exec_nil (s : S) : M.exec s [] = some s := rfl

theorem exec_cons (s : S) (a : A) (rest : List A) :
    M.exec s (a :: rest) = (M.step s a).bind fun s' => M.exec s' rest := rfl

theorem exec_step {s s' : S} {a : A} (h : M.step s a = some s') {rest : List A} :
    M.exec s (a :: rest) = M.exec s' rest := by
  rw [exec_cons, h, Option.bind_some]

theorem exec_append (s : S) (as bs : List A) :
    M.exec s (as ++ bs) = (M.exec s as).bind fun s' => M.exec s' bs := by
  induction as generalizing s with
  | nil => rfl
  | cons a rest ih =>
      rw [List.cons_append, exec_cons, exec_cons]
      cases M.step s a with
      | none => rfl
      | some s' => exact ih s'

theorem exec_concat {s s' : S} {as : List A} {a : A} (h : M.exec s (as ++ [a]) = some s') :
    ∃ mid, M.exec s as = some mid ∧ M.step mid a = some s' := by
  rw [exec_append] at h
  cases hmid : M.exec s as with
  | none => rw [hmid] at h; cases h
  | some mid =>
      rw [hmid] at h
      refine ⟨mid, rfl, ?_⟩
      rw [Option.bind_some, exec_cons] at h
      cases hstep : M.step mid a with
      | none => rw [hstep] at h; cases h
      | some t => rw [hstep] at h; exact h

/-- Every step of a run starts in a state that meets the condition for its label. -/
def System.Along (M : System S A) (P : S → A → Prop) : S → List A → Prop
  | _, [] => True
  | s, a :: rest => P s a ∧ ∀ s', M.step s a = some s' → M.Along P s' rest

theorem along_append {P : S → A → Prop} {s : S} {as bs : List A}
    (h : M.Along P s (as ++ bs)) :
    M.Along P s as ∧ ∀ mid, M.exec s as = some mid → M.Along P mid bs := by
  induction as generalizing s with
  | nil => exact ⟨trivial, fun mid hmid => by cases hmid; exact h⟩
  | cons a rest ih =>
      obtain ⟨hP, hrest⟩ := h
      refine ⟨⟨hP, fun s' hs' => (ih (hrest s' hs')).1⟩, ?_⟩
      intro mid hmid
      rw [exec_cons] at hmid
      cases hstep : M.step s a with
      | none => rw [hstep] at hmid; cases hmid
      | some s' =>
          rw [hstep] at hmid
          exact (ih (hrest s' hstep)).2 mid hmid

/-- A computable test along a run. -/
def System.check (M : System S A) (test : S → A → Bool) : S → List A → Bool
  | _, [] => true
  | s, a :: rest =>
      test s a &&
        match M.step s a with
        | some s' => M.check test s' rest
        | none => true

theorem along_of_check {P : S → A → Prop} {test : S → A → Bool} (htest : ∀ s a, test s a = true → P s a)
    {s : S} {as : List A} (h : M.check test s as = true) : M.Along P s as := by
  induction as generalizing s with
  | nil => trivial
  | cons a rest ih =>
      unfold System.check at h
      obtain ⟨hhead, hrest⟩ := Bool.and_eq_true_iff.mp h
      refine ⟨htest s a hhead, ?_⟩
      intro s' hstep
      rw [hstep] at hrest
      exact ih hrest

theorem along_true (s : S) (as : List A) : M.Along (fun _ _ => True) s as := by
  induction as generalizing s with
  | nil => trivial
  | cons a rest ih => exact ⟨trivial, fun s' _ => ih s'⟩

/-- A condition on the labels alone is a condition on every step. -/
theorem along_of_mem {Q : A → Prop} {as : List A} (h : ∀ a ∈ as, Q a) (s : S := M.init) :
    M.Along (fun _ a => Q a) s as := by
  induction as generalizing s with
  | nil => trivial
  | cons a rest ih =>
      exact ⟨h a (List.mem_cons_self ..), fun s' _ => ih (fun b hb => h b (List.mem_cons_of_mem _ hb)) s'⟩

/-- A condition that follows from another in every step of a run follows along it. -/
theorem along_mono {P Q : S → A → Prop} (hPQ : ∀ s a s', M.step s a = some s' → P s a → Q s a)
    {as : List A} {s t : S} (h : M.exec s as = some t) (hal : M.Along P s as) : M.Along Q s as := by
  induction as generalizing s with
  | nil => trivial
  | cons a rest ih =>
      obtain ⟨hP, hrest⟩ := hal
      rw [exec_cons] at h
      obtain ⟨s', hs', hrun⟩ := Option.bind_eq_some_iff.mp h
      refine ⟨hPQ s a s' hs' hP, ?_⟩
      intro s'' hs''
      obtain rfl := Option.some.inj (hs'.symm.trans hs'')
      exact ih hrun (hrest s' hs')

/--
**The run rule.**  A relation between the labels taken and the state reached that
holds at the start, and that every step meeting the condition extends, holds
after every run whose steps meet the condition.
-/
theorem exec_history_along {P : S → A → Prop} {R : List A → S → Prop}
    (hinit : R [] M.init)
    (hstep : ∀ h s a s', R h s → P s a → M.step s a = some s' → R (h ++ [a]) s') :
    ∀ {as : List A} {s : S}, M.Along P M.init as → M.exec M.init as = some s → R as s := by
  intro as
  induction as using List.reverseRecOn with
  | nil => intro s _ h; cases h; exact hinit
  | append_singleton as a ih =>
      intro s hal h
      obtain ⟨mid, hmid, hlast⟩ := exec_concat h
      obtain ⟨hal1, hal2⟩ := along_append hal
      exact hstep as mid a s (ih hal1 hmid) (hal2 mid hmid).1 hlast

/-- The run rule with no condition on the steps. -/
theorem exec_history {R : List A → S → Prop} (hinit : R [] M.init)
    (hstep : ∀ h s a s', R h s → M.step s a = some s' → R (h ++ [a]) s')
    {as : List A} {s : S} (h : M.exec M.init as = some s) : R as s :=
  exec_history_along (P := fun _ _ => True) hinit
    (fun h s a s' hR _ hs => hstep h s a s' hR hs) (along_true _ _) h

/-- What every step meeting the condition keeps, a run of such steps keeps, wherever it starts. -/
theorem exec_keeps_along {P : S → A → Prop} {I : S → Prop}
    (hstep : ∀ s a s', I s → P s a → M.step s a = some s' → I s') :
    ∀ {as : List A} {s t : S}, I s → M.Along P s as → M.exec s as = some t → I t := by
  intro as
  induction as with
  | nil => intro s t hs _ h; cases h; exact hs
  | cons a rest ih =>
      intro s t hs hal h
      obtain ⟨hP, hrest⟩ := hal
      rw [exec_cons] at h
      obtain ⟨s', hs', hrun⟩ := Option.bind_eq_some_iff.mp h
      exact ih (hstep s a s' hs hP hs') (hrest s' hs') hrun

/-- What every step keeps, every run keeps. -/
theorem exec_keeps {I : S → Prop} (hstep : ∀ s a s', I s → M.step s a = some s' → I s')
    {as : List A} {s t : S} (hs : I s) (h : M.exec s as = some t) : I t :=
  exec_keeps_along (P := fun _ _ => True) (fun s a s' hI _ hs => hstep s a s' hI hs) hs
    (along_true _ _) h

/-- The run rule for a property of states alone, under a condition on the steps. -/
theorem exec_invariant_along {P : S → A → Prop} {I : S → Prop} (hinit : I M.init)
    (hstep : ∀ s a s', I s → P s a → M.step s a = some s' → I s')
    {as : List A} {s : S} (hal : M.Along P M.init as) (h : M.exec M.init as = some s) : I s :=
  exec_keeps_along hstep hinit hal h

/-- A property of states that every step keeps holds in every reachable state. -/
theorem exec_invariant {I : S → Prop} (hinit : I M.init)
    (hstep : ∀ s a s', I s → M.step s a = some s' → I s')
    {as : List A} {s : S} (h : M.exec M.init as = some s) : I s :=
  exec_keeps hstep hinit h

/--
**The cause rule.**  Where a property of states comes about in steps of one kind and in
no others, and is never lost, a run has it at its end exactly if it took such a step.
-/
theorem exec_caused {I Q : S → Prop} {P : S → A → Prop} (hI : I M.init) (hQ : ¬ Q M.init)
    (hkeep : ∀ s a s', I s → M.step s a = some s' → I s')
    (hstep : ∀ s a s', I s → M.step s a = some s' → (Q s' ↔ Q s ∨ P s a))
    {as : List A} {s : S} (h : M.exec M.init as = some s) :
    Q s ↔ ∃ before a after mid, as = before ++ a :: after ∧ M.exec M.init before = some mid ∧ P mid a := by
  have hrun := exec_history (M := M) (R := fun as s => M.exec M.init as = some s ∧ I s ∧
    (Q s ↔ ∃ before a after mid, as = before ++ a :: after ∧ M.exec M.init before = some mid ∧ P mid a)) ?_ ?_ h
  · exact hrun.2.2
  · refine ⟨rfl, hI, iff_of_false hQ ?_⟩
    rintro ⟨before, a, after, mid, hnil, -⟩
    simp at hnil
  · rintro as mid a s' ⟨hexec, hmid, ih⟩ hs
    refine ⟨?_, hkeep mid a s' hmid hs, ?_⟩
    · rw [exec_append, hexec, Option.bind_some, exec_step hs, exec_nil]
    rw [hstep mid a s' hmid hs, ih]
    constructor
    · rintro (⟨before, b, after, m, rfl, hm, hP⟩ | hP)
      · exact ⟨before, b, after ++ [a], m, by simp, hm, hP⟩
      · exact ⟨as, a, [], mid, rfl, hexec, hP⟩
    · rintro ⟨before, b, after, m, hsplit, hm, hP⟩
      rcases List.eq_nil_or_concat after with rfl | ⟨after, c, rfl⟩
      · -- the step is the last one
        obtain ⟨rfl, hab⟩ := List.append_inj' hsplit rfl
        obtain rfl : a = b := by simpa using hab
        obtain rfl := Option.some.inj (hexec.symm.trans hm)
        exact Or.inr hP
      · left
        have hsplit' : as ++ [a] = (before ++ b :: after) ++ [c] := by simpa using hsplit
        obtain ⟨rfl, -⟩ := List.append_inj' hsplit' rfl
        exact ⟨before, b, after, m, rfl, hm, hP⟩

/--
**The projection rule.**  Where every step of one system is, seen through `f`, a
step of another or none at all, what the first reaches the second reaches too, and
its invariants hold there.
-/
theorem exec_project {T B : Type*} {N : System T B} {f : S → T} (hinit : f M.init = N.init)
    (hstep : ∀ s a s', M.step s a = some s' → f s' = f s ∨ ∃ b, N.step (f s) b = some (f s'))
    {as : List A} {s : S} (h : M.exec M.init as = some s) :
    ∃ bs, N.exec N.init bs = some (f s) := by
  refine exec_invariant (I := fun s => ∃ bs, N.exec N.init bs = some (f s)) ?_ ?_ h
  · exact ⟨[], by rw [exec_nil, hinit]⟩
  · rintro s a s' ⟨bs, hbs⟩ hs
    rcases hstep s a s' hs with hsame | ⟨b, hb⟩
    · exact ⟨bs, by rw [hbs, hsame]⟩
    · refine ⟨bs ++ [b], ?_⟩
      rw [exec_append, hbs, Option.bind_some, exec_cons, hb]
      rfl

/-- The system with other labels, each of which stands for one of its own. -/
def System.relabel {B : Type*} (M : System S A) (f : B → A) : System S B where
  init := M.init
  step s b := M.step s (f b)

theorem exec_relabel {B : Type*} (f : B → A) (s : S) (bs : List B) :
    (M.relabel f).exec s bs = M.exec s (bs.map f) := by
  induction bs generalizing s with
  | nil => rfl
  | cons b rest ih =>
      rw [List.map_cons, exec_cons, exec_cons]
      exact congrArg _ (funext fun s' => ih s')

/-- A record kept beside a run, to which each step adds its note. -/
def System.record {R : Type*} (M : System S A) (note : S → A → R → R) : S → R → List A → R
  | _, r, [] => r
  | s, r, a :: rest =>
      match M.step s a with
      | some s' => M.record note s' (note s a r) rest
      | none => r

/-- **The record rule.** -/
theorem exec_record {R : Type*} {note : S → A → R → R} {I : S → R → Prop}
    (hstep : ∀ s a s' r, I s r → M.step s a = some s' → I s' (note s a r)) {as : List A} {s t : S} {r : R}
    (hI : I s r) (h : M.exec s as = some t) : I t (M.record note s r as) := by
  induction as generalizing s r with
  | nil =>
      obtain rfl := Option.some.inj h
      exact hI
  | cons a rest ih =>
      rw [exec_cons] at h
      obtain ⟨s', hs', hrun⟩ := Option.bind_eq_some_iff.mp h
      unfold System.record
      rw [hs']
      exact ih (hstep s a s' r hI hs') hrun

end Lts
