/-
How often a text stands in another.

`count` is the number of places where it stands, also where these overlap.  A text
that is put in somewhere adds its own occurrences, as long as none begins in front
of a seam and ends behind it.  `Apart p s` rules that out at the end of `s`, and is
read off the characters that are marked, where both texts end with one.
-/
import Mathlib.Data.List.Infix

namespace Occurrences

variable {α : Type} [DecidableEq α] {p s : List α}

/-- At how many places `p` stands. -/
def count (p : List α) : List α → Nat
  | [] => if p.isEmpty then 1 else 0
  | x :: s => (if p.isPrefixOf (x :: s) then 1 else 0) + count p s

theorem count_nil (hp : p ≠ []) : count p [] = 0 := by
  cases p with
  | nil => exact absurd rfl hp
  | cons x p => rfl

theorem count_cons (x : α) (s : List α) :
    count p (x :: s) = (if p <+: x :: s then 1 else 0) + count p s := by
  rw [count]
  simp only [List.isPrefixOf_iff_prefix]

theorem count_eq_zero (hp : p ≠ []) : count p s = 0 ↔ ¬p <:+: s := by
  induction s with
  | nil => simp [count_nil hp, hp]
  | cons x s ih =>
      rw [count_cons, List.infix_cons_iff, not_or, ← ih]
      by_cases h : p <+: x :: s <;> simp [h]

theorem infix_of_count (hp : p ≠ []) (h : count p s = 1) : p <:+: s := by
  by_contra hnot
  rw [(count_eq_zero hp).mpr hnot] at h
  cases h

theorem count_of_longer (h : s.length < p.length) : count p s = 0 := by
  have hp : p ≠ [] := List.ne_nil_of_length_pos (by omega)
  rw [count_eq_zero hp]
  intro hwithin
  have := hwithin.length_le
  omega

theorem count_self (hp : p ≠ []) : count p p = 1 := by
  cases p with
  | nil => exact absurd rfl hp
  | cons x p =>
      rw [count_cons, if_pos (List.prefix_refl _), count_of_longer (by simp)]

/-- Where nothing of `p` crosses the seam, the occurrences on both sides are all. -/
theorem count_append_of {u : List α} (hp : p ≠ [])
    (h : ∀ front back, p = front ++ back → front ≠ [] → back ≠ [] → front <:+ s → ¬back <+: u) :
    count p (s ++ u) = count p s + count p u := by
  induction s with
  | nil => rw [List.nil_append, count_nil hp, Nat.zero_add]
  | cons x s ih =>
      have hs : ∀ front back, p = front ++ back → front ≠ [] → back ≠ [] → front <:+ s → ¬back <+: u :=
        fun front back heq hfront hback hsuffix =>
          h front back heq hfront hback (hsuffix.trans (List.suffix_cons x s))
      have hfirst : p <+: (x :: s) ++ u ↔ p <+: x :: s := by
        constructor
        · intro hpre
          obtain hle | hlt := Nat.lt_or_ge (x :: s).length p.length
          · -- the occurrence would go on behind the seam
            obtain ⟨back, hback⟩ := List.prefix_of_prefix_length_le (List.prefix_append (x :: s) u) hpre
              (Nat.le_of_lt hle)
            have hne : back ≠ [] := by
              rintro rfl
              rw [List.append_nil] at hback
              rw [hback] at hle
              exact absurd hle (Nat.lt_irrefl _)
            rw [← hback, List.prefix_append_right_inj] at hpre
            exact absurd hpre (h _ _ hback.symm (List.cons_ne_nil x s) hne (List.suffix_refl _))
          · exact List.prefix_of_prefix_length_le hpre (List.prefix_append (x :: s) u) hlt
        · exact fun hpre => hpre.trans (List.prefix_append _ u)
      rw [List.cons_append, count_cons, count_cons, ih hs, ← List.cons_append]
      simp only [hfirst]
      omega

/-- No proper beginning of `p` ends `s`. -/
def Apart (p s : List α) : Prop := ∀ front back, p = front ++ back → front ≠ [] → back ≠ [] → ¬front <:+ s

theorem count_append {u : List α} (hp : p ≠ []) (h : Apart p s) :
    count p (s ++ u) = count p s + count p u :=
  count_append_of hp fun front back heq hfront hback hsuffix _ => h front back heq hfront hback hsuffix

/-- Nothing crosses a character that is not in `p`. -/
theorem count_separator {c : α} {u : List α} (hp : p ≠ []) (hc : c ∉ p) :
    count p (s ++ c :: u) = count p s + count p u := by
  have hcross : count p (s ++ c :: u) = count p s + count p (c :: u) := by
    refine count_append_of hp fun front back heq _ hback _ hpre => ?_
    obtain ⟨x, back', rfl⟩ := List.exists_cons_of_ne_nil hback
    obtain rfl : x = c := (List.cons_prefix_cons.mp hpre).1
    exact hc (heq ▸ List.mem_append_right _ (List.mem_cons_self ..))
  have hnot : ¬p <+: c :: u := by
    intro hpre
    obtain ⟨x, p', rfl⟩ := List.exists_cons_of_ne_nil hp
    obtain rfl : x = c := (List.cons_prefix_cons.mp hpre).1
    exact hc (List.mem_cons_self ..)
  rw [hcross, count_cons, if_neg hnot, Nat.zero_add]

/-- A text that is put in behind a separator adds its own occurrences. -/
theorem count_insert {a l b : List α} {c : α} (hp : p ≠ []) (hc : c ∉ p) (ha : Apart p a) (hl : Apart p l) :
    count p (a ++ c :: (l ++ b)) = count p (a ++ b) + count p l := by
  rw [count_separator hp hc, count_append hp hl, count_append hp ha]
  omega

theorem infix_separator {c : α} {u : List α} (hp : p ≠ []) (hc : c ∉ p) :
    p <:+: s ++ c :: u ↔ p <:+: s ∨ p <:+: u := by
  have hsum : count p (s ++ c :: u) = count p s + count p u := count_separator hp hc
  have hs := count_eq_zero hp (s := s)
  have hu := count_eq_zero hp (s := u)
  have hwhole := count_eq_zero hp (s := s ++ c :: u)
  rw [← not_iff_not, ← hwhole, not_or, ← hs, ← hu]
  omega

theorem infix_append {u : List α} (hp : p ≠ []) (h : Apart p s) : p <:+: s ++ u ↔ p <:+: s ∨ p <:+: u := by
  have hsum : count p (s ++ u) = count p s + count p u := count_append hp h
  have hs := count_eq_zero hp (s := s)
  have hu := count_eq_zero hp (s := u)
  have hwhole := count_eq_zero hp (s := s ++ u)
  rw [← not_iff_not, ← hwhole, not_or, ← hs, ← hu]
  omega

/-- What no piece holds and no seam cuts is not in the whole. -/
theorem not_infix_flatten {pieces : List (List α)} (hp : p ≠ [])
    (h : ∀ piece ∈ pieces, Apart p piece ∧ ¬p <:+: piece) : ¬p <:+: pieces.flatten := by
  induction pieces with
  | nil => simp [hp]
  | cons piece pieces ih =>
      obtain ⟨⟨hapart, hpiece⟩, hrest⟩ := List.forall_mem_cons.mp h
      rw [List.flatten_cons, infix_append hp hapart, not_or]
      exact ⟨hpiece, ih hrest⟩

/-! ### Texts that stay apart -/

/-- For texts that can be evaluated. -/
theorem apart_of_tails
    (h : (s.tails.all fun t => t.isEmpty || decide (p.length ≤ t.length) || !t.isPrefixOf p) = true) :
    Apart p s := by
  intro front back heq hfront hback hsuffix
  have htail := List.all_eq_true.mp h front ((List.mem_tails ..).mpr hsuffix)
  have hpre : front.isPrefixOf p = true := List.isPrefixOf_iff_prefix.mpr (heq ▸ List.prefix_append front back)
  have hlength := congrArg List.length heq
  have := List.length_pos_iff.mpr hback
  rw [hpre, List.isEmpty_eq_false_iff.mpr hfront] at htail
  rw [List.length_append] at hlength
  simp only [Bool.false_or, Bool.not_true, Bool.or_false, decide_eq_true_eq] at htail
  omega

/-- For a text that begins with one that can be evaluated. -/
theorem apart_of_front {front : List α} (rest : List α)
    (h : (s.tails.all fun t => t.isEmpty || !(t.take front.length).isPrefixOf front) = true) :
    Apart (front ++ rest) s := by
  intro front' back heq hfront hback hsuffix
  have htail := List.all_eq_true.mp h front' ((List.mem_tails ..).mpr hsuffix)
  have hpre : (front'.take front.length).isPrefixOf front = true := by
    refine List.isPrefixOf_iff_prefix.mpr ?_
    have hwhole : front' <+: front ++ rest := heq ▸ List.prefix_append front' back
    refine List.prefix_of_prefix_length_le ((List.take_prefix _ _).trans hwhole) (List.prefix_append front rest) ?_
    exact List.length_take_le _ _
  rw [hpre, List.isEmpty_eq_false_iff.mpr hfront] at htail
  cases htail

section Apart

omit [DecidableEq α]

theorem apart_append {a m : List α} (h : Apart p m) (hm : ¬m <:+: p) : Apart p (a ++ m) := by
  intro front back heq hfront hback hsuffix
  obtain hin | hin := List.suffix_or_suffix_of_suffix hsuffix (List.suffix_append a m)
  · exact h front back heq hfront hback hin
  · exact hm (hin.isInfix.trans (heq ▸ List.prefix_append front back).isInfix)

theorem last_of_suffix {front : List α} {x : α} (hfront : front ≠ []) (h : front <:+ s ++ [x]) :
    ∃ front', front = front' ++ [x] := by
  obtain ⟨more, hmore⟩ := h
  rw [← List.dropLast_append_getLast hfront, ← List.append_assoc] at hmore
  have hlast : front.getLast hfront = x := by simpa using (List.append_inj' hmore rfl).2
  exact ⟨front.dropLast, by rw [← hlast, List.dropLast_append_getLast]⟩

/-- A text ends with a character that is not in `p`. -/
theorem apart_of_last {c : α} (hc : c ∉ p) : Apart p (s ++ [c]) := by
  intro front back heq hfront _ hsuffix
  obtain ⟨front', rfl⟩ := last_of_suffix hfront hsuffix
  exact hc (heq ▸ by simp)

/-- Texts with a mark at their ends are apart if their marked characters are. -/
theorem apart_of_filter {marked : α → Bool} {x y : α} (hx : marked x = true) (hy : marked y = true)
    (h : Apart ((p ++ [x]).filter marked) ((s ++ [y]).filter marked)) : Apart (p ++ [x]) (s ++ [y]) := by
  intro front back heq hfront hback hsuffix
  refine h (front.filter marked) (back.filter marked) (by rw [heq, List.filter_append]) ?_ ?_ (hsuffix.filter _)
  · obtain ⟨front', rfl⟩ := last_of_suffix hfront hsuffix
    simp [hy]
  · obtain ⟨back', rfl⟩ := last_of_suffix hback ⟨front, heq.symm⟩
    simp [hx]

/-- There is one way to cut a text at the first `c`. -/
theorem append_cons_unique {c : α} {a b : List α} (ha : c ∉ a) (hb : c ∉ b) {a' b' : List α}
    (h : a ++ c :: a' = b ++ c :: b') : a = b ∧ a' = b' := by
  induction a generalizing b with
  | nil =>
      cases b with
      | nil => exact ⟨rfl, (List.cons.inj h).2⟩
      | cons y b => exact absurd ((List.cons.inj h).1 ▸ List.mem_cons_self ..) hb
  | cons x a ih =>
      cases b with
      | nil => exact absurd ((List.cons.inj h).1 ▸ List.mem_cons_self ..) ha
      | cons y b =>
          simp only [List.mem_cons, not_or] at ha hb
          obtain ⟨rfl, hrest⟩ := List.cons.inj h
          obtain ⟨rfl, rfl⟩ := ih ha.2 hb.2 hrest
          exact ⟨rfl, rfl⟩

/-- There is one way to cut a text at the last `c`. -/
theorem append_cons_unique_last {c : α} {a b a' b' : List α} (ha : c ∉ a') (hb : c ∉ b')
    (h : a ++ c :: a' = b ++ c :: b') : a = b ∧ a' = b' := by
  have hreverse := congrArg List.reverse h
  simp only [List.reverse_append, List.reverse_cons, List.append_assoc, List.singleton_append] at hreverse
  obtain ⟨hback, hfront⟩ := append_cons_unique (by simpa using ha) (by simpa using hb) hreverse
  exact ⟨List.reverse_injective hfront, List.reverse_injective hback⟩

/--
Of two texts with the same marks, alike up to the first of them and with one at the
end, neither stands in the other unless they are the same.
-/
theorem eq_of_isInfix {marked : α → Bool} {front p' s' s'' : List α} {x y : α} (hp : p = front ++ x :: p')
    (hs : s = front ++ x :: s') (hend : s = s'' ++ [y]) (hx : marked x = true) (hy : marked y = true)
    (hfront : x ∉ front) (hmarks : p.filter marked = s.filter marked) (hwithin : p <:+: s) : p = s := by
  obtain ⟨a, b, hab⟩ := hwithin
  have hnone : a.filter marked = [] ∧ b.filter marked = [] := by
    have hlength := congrArg List.length hmarks
    rw [← hab, List.filter_append, List.filter_append, List.length_append, List.length_append] at hlength
    exact ⟨List.length_eq_zero_iff.mp (by omega), List.length_eq_zero_iff.mp (by omega)⟩
  obtain rfl : b = [] := by
    by_contra hne
    obtain ⟨b', rfl⟩ := last_of_suffix hne ⟨a ++ p, hab.trans hend⟩
    simp [hy] at hnone
  have ha : x ∉ a := fun hmem => by
    have hin : x ∈ a.filter marked := List.mem_filter.mpr ⟨hmem, hx⟩
    rw [hnone.1] at hin
    cases hin
  -- the first mark of the whole is that of the text inside
  rw [List.append_nil, hp, hs, ← List.append_assoc] at hab
  obtain ⟨hnil, -⟩ := append_cons_unique (by simp [ha, hfront]) hfront hab
  rw [List.append_left_eq_self.mp hnil, List.nil_append] at hab
  rw [hp, hs, hab]

end Apart

/-! ### Lines behind a marker -/

/-- `p` is neither cut nor made where a line is put in behind a marker and a separator. -/
structure Clear (c : α) (marker line p : List α) : Prop where
  ne_nil : p ≠ []
  separator : c ∉ p
  marker_apart : Apart p marker
  no_marker : ¬marker <:+: p
  line_apart : Apart p line

theorem Clear.count {c : α} {marker line : List α} (h : Clear c marker line p) (a b : List α) :
    count p (a ++ marker ++ c :: (line ++ b))
      = Occurrences.count p (a ++ marker ++ b) + Occurrences.count p line :=
  count_insert h.ne_nil h.separator (apart_append h.marker_apart h.no_marker) h.line_apart

/-- A text that is added at the end, whose own beginnings do not end `p`. -/
theorem count_append_end (hp : p ≠ []) (h : Apart s p) (hin : s <:+: p → s = p) {content : List α} :
    count p (content ++ s) = count p content + count p s := by
  refine count_append_of hp fun front back heq hfront hback _ hpre => ?_
  have hsuffix : back <:+ p := heq ▸ List.suffix_append front back
  obtain ⟨rest, rfl⟩ := hpre
  cases hrest : rest with
  | nil =>
      -- the whole of `s` ends `p`, and is less than it
      rw [hrest, List.append_nil] at hin
      have hlength := congrArg List.length heq
      rw [← hin hsuffix.isInfix, List.length_append] at hlength
      exact hfront (List.length_eq_zero_iff.mp (by omega))
  | cons x rest' => exact h back rest rfl hback (by simp [hrest]) hsuffix

end Occurrences
