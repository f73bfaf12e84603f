/-
Histories that grow at the end.

An invariant about "everything since the last such event" splits a history at
that event.  When the history grows by one element, either the split is at the
new element or the old history had the same split and the element goes to the end
of what follows.  `concat_eq_split` is that case distinction, and the rest is
what the invariants say of filtered and pruned lists.
-/
import Mathlib.Data.List.Nodup

namespace History

variable {A : Type*}

/-- A split of a history that has just grown. -/
theorem concat_eq_split {xs pre post : List A} {x y : A} (h : xs ++ [x] = pre ++ y :: post) :
    (post = [] ∧ y = x ∧ pre = xs) ∨ ∃ post', post = post' ++ [x] ∧ xs = pre ++ y :: post' := by
  rcases List.eq_nil_or_concat post with rfl | ⟨post', z, rfl⟩
  · obtain ⟨hxs, hy⟩ := List.append_inj' h rfl
    exact Or.inl ⟨rfl, (List.cons.inj hy).1.symm, hxs.symm⟩
  · right
    rw [List.concat_eq_append, ← List.cons_append, ← List.append_assoc] at h
    obtain ⟨hxs, hz⟩ := List.append_inj' h rfl
    obtain rfl := (List.cons.inj hz).1
    exact ⟨post', List.concat_eq_append, hxs⟩

/-- What is at a place of a history stays there. -/
theorem getElem?_concat {xs : List A} {x y : A} {k : Nat} (h : xs[k]? = some y) : (xs ++ [x])[k]? = some y := by
  rw [List.getElem?_append_left (List.getElem?_eq_some_iff.mp h).1, h]

/-- What is at a place was there before, or is the new element. -/
theorem of_getElem?_concat {xs : List A} {x y : A} {k : Nat} (h : (xs ++ [x])[k]? = some y) :
    xs[k]? = some y ∨ (k = xs.length ∧ y = x) := by
  rcases Nat.lt_trichotomy k xs.length with hlt | rfl | hgt
  · rw [List.getElem?_append_left hlt] at h
    exact Or.inl h
  · rw [List.getElem?_concat_length] at h
    exact Or.inr ⟨rfl, (Option.some.inj h).symm⟩
  · rw [List.getElem?_eq_none (by rw [List.length_append, List.length_singleton]; omega)] at h
    cases h

/-- Every element of a history was allowed by what came before it. -/
def Guarded (G : List A → A → Prop) (h : List A) : Prop :=
  ∀ pre e post, h = pre ++ e :: post → G pre e

theorem guarded_nil (G : List A → A → Prop) : Guarded G [] := by
  intro pre e post h
  exact absurd h.symm (by simp)

theorem guarded_concat {G : List A → A → Prop} {h : List A} {e : A} (hg : Guarded G h) (he : G h e) :
    Guarded G (h ++ [e]) := by
  intro pre x post hsplit
  rcases concat_eq_split hsplit with ⟨-, rfl, rfl⟩ | ⟨post', -, rfl⟩
  · exact he
  · exact hg pre x post' rfl

/-- Pruning a list and keeping what satisfies a predicate does not show after filtering. -/
theorem filter_eq_of_sublist {xs ys : List A} {p : A → Bool} (hsub : xs.Sublist ys)
    (hnodup : ys.Nodup) (hkept : ∀ y ∈ ys, p y = true → y ∈ xs) : xs.filter p = ys.filter p := by
  induction hsub with
  | slnil => rfl
  | @cons xs ys a hsub ih =>
      obtain ⟨hnot, hnodup⟩ := List.nodup_cons.mp hnodup
      have hpa : ¬p a = true := fun h => hnot (hsub.subset (hkept a (List.mem_cons_self ..) h))
      rw [List.filter_cons_of_neg hpa]
      exact ih hnodup fun y hy h => hkept y (List.mem_cons_of_mem _ hy) h
  | @cons_cons xs ys a hsub ih =>
      obtain ⟨hnot, hnodup⟩ := List.nodup_cons.mp hnodup
      have htail : xs.filter p = ys.filter p := by
        refine ih hnodup ?_
        intro y hy h
        rcases List.mem_cons.mp (hkept y (List.mem_cons_of_mem _ hy) h) with rfl | hmem
        · exact absurd hy hnot
        · exact hmem
      rw [List.filter_cons, List.filter_cons, htail]

/-- The positions at which a list holds `x`, in order. -/
def positions [DecidableEq A] (x : A) (xs : List A) : List Nat :=
  (List.range xs.length).filter fun i => xs[i]? = some x

variable [DecidableEq A]

theorem positions_concat (x y : A) (xs : List A) :
    positions x (xs ++ [y]) = positions x xs ++ if y = x then [xs.length] else [] := by
  unfold positions
  rw [List.length_append, List.length_singleton, List.range_succ, List.filter_append]
  congr 1
  · refine List.filter_congr ?_
    intro i hi
    rw [List.getElem?_append_left (List.mem_range.mp hi)]
  · rw [List.filter_singleton, List.getElem?_concat_length]
    by_cases hy : y = x <;> simp [hy]

theorem mem_positions {x : A} {xs : List A} {i : Nat} : i ∈ positions x xs ↔ xs[i]? = some x := by
  unfold positions
  rw [List.mem_filter, List.mem_range, decide_eq_true_eq]
  exact ⟨fun h => h.2, fun h => ⟨(List.getElem?_eq_some_iff.mp h).1, h⟩⟩

theorem positions_nodup (x : A) (xs : List A) : (positions x xs).Nodup :=
  List.nodup_range.filter _

end History
