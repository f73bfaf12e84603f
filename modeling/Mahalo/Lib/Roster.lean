/-
Rosters told by their changes.

A history of who came up and who went down tells a set: the ones whose last event is
an up.  It tells it well if the events of each of them alternate, beginning with an
up.  A batch of ups of ones that were down keeps that, and so does a batch of downs of
ones that were up, so a component that announces the difference of two sets does.
-/
import Mathlib.Data.List.Chain
import Mathlib.Data.Set.Insert

namespace Roster

variable {A : Type*}

inductive Event (A : Type*) where
  | up (a : A)
  | down (a : A)
  deriving DecidableEq

def Event.who : Event A → A
  | .up a => a
  | .down a => a

/-- The events of one of them. -/
def eventsOf [DecidableEq A] (a : A) (h : List (Event A)) : List (Event A) := h.filter (·.who = a)

variable [DecidableEq A]

structure Tells (h : List (Event A)) (S : Set A) : Prop where
  last : ∀ a, (eventsOf a h).getLast? = some (.up a) ↔ a ∈ S
  alternates : ∀ a, (eventsOf a h).IsChain (· ≠ ·)
  first : ∀ a, ∀ e ∈ (eventsOf a h).head?, e = .up a

variable {h : List (Event A)} {S : Set A} {a : A}

theorem eventsOf_concat (a : A) (h : List (Event A)) (e : Event A) :
    eventsOf a (h ++ [e]) = if e.who = a then eventsOf a h ++ [e] else eventsOf a h := by
  unfold eventsOf
  rw [List.filter_append]
  by_cases hwho : e.who = a <;> simp [hwho]

theorem tells_nil : Tells ([] : List (Event A)) ∅ where
  last := by
    intro a
    exact iff_of_false (fun h => by cases h) (Set.notMem_empty a)
  alternates := fun _ => .nil
  first := by
    intro a e he
    cases he

/-- An event of one that was not its last, and that begins with an up, extends the history. -/
theorem Tells.concat (ht : Tells h S) {e : Event A} {T : Set A}
    (hlast : ∀ x ∈ (eventsOf e.who h).getLast?, x ≠ e)
    (hfirst : eventsOf e.who h = [] → e = .up e.who)
    (hself : e = .up e.who ↔ e.who ∈ T) (hother : ∀ a, a ≠ e.who → (a ∈ T ↔ a ∈ S)) :
    Tells (h ++ [e]) T := by
  refine ⟨?_, ?_, ?_⟩
  · intro a
    rw [eventsOf_concat]
    by_cases ha : e.who = a
    · subst ha
      rw [if_pos rfl, List.getLast?_concat, Option.some.injEq]
      exact hself
    · rw [if_neg ha, ht.last, hother a (Ne.symm ha)]
  · intro a
    rw [eventsOf_concat]
    by_cases ha : e.who = a
    · subst ha
      rw [if_pos rfl]
      refine List.isChain_append.mpr ⟨ht.alternates _, List.isChain_singleton e, ?_⟩
      intro x hx y hy
      rw [← Option.some.inj hy]
      exact hlast x hx
    · rw [if_neg ha]
      exact ht.alternates a
  · intro a x hx
    rw [eventsOf_concat] at hx
    by_cases ha : e.who = a
    · subst ha
      rw [if_pos rfl] at hx
      cases hevents : eventsOf e.who h with
      | nil =>
          rw [hevents] at hx
          rw [← Option.some.inj hx]
          exact hfirst hevents
      | cons y rest =>
          rw [hevents] at hx
          refine ht.first e.who x ?_
          rw [hevents]
          exact hx
    · rw [if_neg ha] at hx
      exact ht.first a x hx

theorem Tells.up (ht : Tells h S) (ha : a ∉ S) : Tells (h ++ [.up a]) (insert a S) := by
  refine ht.concat ?_ (fun _ => rfl) (iff_of_true rfl (Set.mem_insert a S)) ?_
  · rintro x hx rfl
    exact ha ((ht.last a).mp hx)
  · intro b hb
    exact Set.mem_insert_iff.trans (or_iff_right hb)

theorem Tells.down (ht : Tells h S) (ha : a ∈ S) : Tells (h ++ [.down a]) (S \ {a}) := by
  have hup : (eventsOf a h).getLast? = some (.up a) := (ht.last a).mpr ha
  refine ht.concat ?_ ?_ (iff_of_false (fun heq => by cases heq) fun hmem => hmem.2 rfl) ?_
  · rintro x hx rfl
    cases hup.symm.trans hx
  · intro hnil
    have hnil : eventsOf a h = [] := hnil
    rw [hnil] at hup
    cases hup
  · intro b hb
    exact and_iff_left hb

theorem Tells.ups (ht : Tells h S) {as : List A} (hnodup : as.Nodup) (hnew : ∀ a ∈ as, a ∉ S) :
    Tells (h ++ as.map .up) {a | a ∈ S ∨ a ∈ as} := by
  induction as generalizing h S with
  | nil =>
      rw [List.map_nil, List.append_nil]
      simpa using ht
  | cons a rest ih =>
      obtain ⟨hnot, hnodup⟩ := List.nodup_cons.mp hnodup
      rw [List.map_cons, ← List.singleton_append, ← List.append_assoc]
      have hrest := ih (ht.up (hnew a (List.mem_cons_self ..))) hnodup (by
        intro b hb hmem
        rcases Set.mem_insert_iff.mp hmem with rfl | hmem
        · exact hnot hb
        · exact hnew b (List.mem_cons_of_mem _ hb) hmem)
      convert hrest using 1
      ext b
      show b ∈ S ∨ b ∈ a :: rest ↔ b ∈ insert a S ∨ b ∈ rest
      rw [List.mem_cons, Set.mem_insert_iff]
      tauto

theorem Tells.downs (ht : Tells h S) {as : List A} (hnodup : as.Nodup) (hold : ∀ a ∈ as, a ∈ S) :
    Tells (h ++ as.map .down) {a | a ∈ S ∧ a ∉ as} := by
  induction as generalizing h S with
  | nil =>
      rw [List.map_nil, List.append_nil]
      simpa using ht
  | cons a rest ih =>
      obtain ⟨hnot, hnodup⟩ := List.nodup_cons.mp hnodup
      rw [List.map_cons, ← List.singleton_append, ← List.append_assoc]
      have hrest := ih (ht.down (hold a (List.mem_cons_self ..))) hnodup (by
        intro b hb
        refine ⟨hold b (List.mem_cons_of_mem _ hb), ?_⟩
        rintro rfl
        exact hnot hb)
      convert hrest using 1
      ext b
      show b ∈ S ∧ b ∉ a :: rest ↔ (b ∈ S ∧ b ∉ ({a} : Set A)) ∧ b ∉ rest
      rw [List.mem_cons, Set.mem_singleton_iff]
      tauto

/-- **Announcing the difference of two sets.**  The history tells the second one. -/
theorem Tells.difference {known current : List A} (ht : Tells h {a | a ∈ known})
    (hknown : known.Nodup) (hcurrent : current.Nodup) :
    Tells (h ++ ((current.filter (· ∉ known)).map .up ++ (known.filter (· ∉ current)).map .down))
      {a | a ∈ current} := by
  have hups := ht.ups (hcurrent.filter (· ∉ known)) fun a ha =>
    of_decide_eq_true (List.mem_filter.mp ha).2
  have hdowns := hups.downs (hknown.filter (· ∉ current)) fun a ha =>
    Or.inl (List.mem_filter.mp ha).1
  rw [List.append_assoc] at hdowns
  convert hdowns using 1
  ext a
  show a ∈ current ↔ (a ∈ known ∨ a ∈ current.filter (· ∉ known)) ∧ a ∉ known.filter (· ∉ current)
  rw [List.mem_filter, List.mem_filter, decide_eq_true_eq, decide_eq_true_eq]
  tauto

end Roster
