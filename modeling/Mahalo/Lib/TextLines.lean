/-
Texts that are put together of lines.

Every line is followed by a separator.  What has no separator in it stands in such a
text exactly if it stands in one of the lines, and replacing the first marker by
itself and another line puts that line in behind the one with the marker.
-/
import Mahalo.Lib.Occurrences
import Mahalo.Lib.RustStd

namespace TextLines

open Occurrences RustStd

section

variable {α : Type}

/-- The lines, each with the separator behind it. -/
def unlines (sep : α) (lines : List (List α)) : List α := lines.flatMap fun line => line ++ [sep]

theorem unlines_cons (sep : α) (line : List α) (lines : List (List α)) :
    unlines sep (line :: lines) = line ++ sep :: unlines sep lines := by
  unfold unlines
  rw [List.flatMap_cons, List.append_assoc]
  rfl

theorem unlines_append (sep : α) (lines more : List (List α)) :
    unlines sep (lines ++ more) = unlines sep lines ++ unlines sep more := List.flatMap_append

variable [DecidableEq α] {sep : α} {p u : List α} {lines : List (List α)}

/-- What has no separator stands in one of the lines, or in what follows them. -/
theorem infix_unlines_append (hp : p ≠ []) (hsep : sep ∉ p) :
    p <:+: unlines sep lines ++ u ↔ (∃ line ∈ lines, p <:+: line) ∨ p <:+: u := by
  induction lines with
  | nil => simp [unlines]
  | cons line lines ih =>
      rw [unlines_cons, List.append_assoc, List.cons_append, infix_separator hp hsep, ih]
      simp only [List.exists_mem_cons_iff, or_assoc]

theorem infix_unlines (hp : p ≠ []) (hsep : sep ∉ p) :
    p <:+: unlines sep lines ↔ ∃ line ∈ lines, p <:+: line := by
  have h : p <:+: unlines sep lines ++ [] ↔ (∃ line ∈ lines, p <:+: line) ∨ p <:+: [] :=
    infix_unlines_append hp hsep
  rw [List.append_nil, List.infix_nil] at h
  rw [h, or_iff_left hp]

end

variable {sep : Char} {s marker : List Char}

/-- The first marker is replaced, and none ends before the one that is shown. -/
theorem replaceFirst_append (hmarker : marker ≠ []) (h : ¬marker <:+: (s ++ marker).dropLast)
    (replacement behind : List Char) :
    replaceFirst (s ++ (marker ++ behind)) marker replacement = s ++ (replacement ++ behind) := by
  induction s with
  | nil =>
      obtain ⟨c, rest, rfl⟩ := List.exists_cons_of_ne_nil hmarker
      have hstart : startsWith (c :: (rest ++ behind)) (c :: rest) = true :=
        List.isPrefixOf_iff_prefix.mpr (List.prefix_append (c :: rest) behind)
      rw [List.nil_append, List.cons_append, replaceFirst, if_pos hstart, ← List.cons_append, List.drop_left,
        List.nil_append]
  | cons c s ih =>
      have hne : s ++ marker ≠ [] := by simp [hmarker]
      rw [List.cons_append, List.dropLast_cons_of_ne_nil hne, List.infix_cons_iff, not_or] at h
      have hstart : ¬startsWith (c :: (s ++ (marker ++ behind))) marker = true := by
        intro hstart
        have hwhole : c :: (s ++ marker).dropLast <+: c :: (s ++ (marker ++ behind)) := by
          rw [List.cons_prefix_cons, ← List.append_assoc]
          exact ⟨rfl, (List.dropLast_prefix _).trans (List.prefix_append _ _)⟩
        refine h.1 (List.prefix_of_prefix_length_le (List.isPrefixOf_iff_prefix.mp hstart) hwhole ?_)
        have := List.length_pos_of_ne_nil hmarker
        simp only [List.length_cons, List.length_dropLast, List.length_append]
        omega
      rw [List.cons_append, replaceFirst, if_neg hstart, ih h.2]
      rfl

/-- A line goes in behind the first one with the marker, which has it at its end. -/
theorem replaceFirst_unlines (before : List (List Char)) (indent line : List Char) (after : List (List Char))
    (hmarker : marker ≠ []) (hsep : sep ∉ marker)
    (hbefore : ∀ l ∈ before, ¬marker <:+: l) (hindent : ¬marker <:+: (indent ++ marker).dropLast) :
    replaceFirst (unlines sep (before ++ (indent ++ marker) :: after)) marker (marker ++ [sep] ++ line)
      = unlines sep (before ++ (indent ++ marker) :: line :: after) := by
  have hfirst : ¬marker <:+: ((unlines sep before ++ indent) ++ marker).dropLast := by
    rw [List.append_assoc, List.dropLast_append_of_ne_nil (by simp [hmarker]),
      infix_unlines_append hmarker hsep, not_or]
    exact ⟨fun ⟨l, hl, hin⟩ => hbefore l hl hin, hindent⟩
  have hreplace := replaceFirst_append hmarker hfirst (marker ++ [sep] ++ line) (sep :: unlines sep after)
  rw [unlines_append, unlines_append, unlines_cons, unlines_cons, unlines_cons]
  simp only [List.append_assoc, List.cons_append, List.nil_append] at hreplace ⊢
  exact hreplace

end TextLines
