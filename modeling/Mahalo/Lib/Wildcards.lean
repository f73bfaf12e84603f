/-
Patterns of characters and wildcards.

A parameter stands for a text up to the next separator, a catch-all for all that is
left, and neither for nothing.  So a pattern matches a text in one way at most.  Of two
patterns that match the same text, one has a character at the first place where just
one of the two has a wildcard, and is the more specific, unless they clash: there is no
such place, or one takes the rest where the other has a parameter.

A pattern whose parameters fill the pieces between separators matches piece by piece.
-/
import Mathlib.Data.List.Lex
import Mathlib.Order.BooleanAlgebra.Basic
import Mahalo.Lib.Patterns

namespace Wildcards

open Patterns (Piece matchPieces)

variable {α K : Type}

inductive Token (α K : Type) where
  | char (c : α)
  /-- up to the next separator -/
  | param (key : K)
  /-- up to the end, behind which there is nothing -/
  | rest (key : K)
  deriving DecidableEq, Repr

section Matching

variable [DecidableEq α] (sep : α)

/-- What the wildcards stand for, where the pattern matches. -/
def matchTokens : List (Token α K) → List α → Option (List (K × List α))
  | [], [] => some []
  | .char c :: ts, d :: text => if c = d then matchTokens ts text else none
  | .param key :: ts, text =>
      if text.takeWhile (· ≠ sep) = [] then none
      else (matchTokens ts (text.dropWhile (· ≠ sep))).map fun bound => (key, text.takeWhile (· ≠ sep)) :: bound
  | [.rest key], text => if text = [] then none else some [(key, text)]
  | _, _ => none

variable {sep} {ts us : List (Token α K)} {text : List α} {bound : List (K × List α)}

theorem matchTokens_nil (h : (matchTokens sep ([] : List (Token α K)) text).isSome = true) : text = [] := by
  cases text with
  | nil => rfl
  | cons d text => cases h

theorem matchTokens_char {c : α} (h : (matchTokens sep (.char c :: ts) text).isSome = true) :
    ∃ text', text = c :: text' ∧ (matchTokens sep ts text').isSome = true := by
  cases text with
  | nil => cases h
  | cons d text =>
      rw [matchTokens] at h
      split_ifs at h with hc
      · exact ⟨text, by rw [hc], h⟩
      · cases h

theorem matchTokens_param {key : K} (h : (matchTokens sep (.param key :: ts) text).isSome = true) :
    text ≠ [] ∧ (matchTokens sep ts (text.dropWhile (· ≠ sep))).isSome = true := by
  rw [matchTokens] at h
  split_ifs at h with hempty
  · cases h
  · rw [Option.isSome_map] at h
    refine ⟨?_, h⟩
    rintro rfl
    exact hempty rfl

theorem matchTokens_rest {key : K} (h : (matchTokens sep (.rest key :: ts) text).isSome = true) :
    text ≠ [] := by
  rintro rfl
  cases ts with
  | nil => cases h
  | cons t ts => cases h

/-! ### The more specific of two patterns -/

/-- A character stands in the first place where just one of the two has a wildcard. -/
def moreSpecific : List (Token α K) → List (Token α K) → Bool
  | .char _ :: ts, .char _ :: us => moreSpecific ts us
  | .char _ :: _, _ :: _ => true
  | .param _ :: ts, .param _ :: us => moreSpecific ts us
  | _, _ => false

/-- Two patterns that cannot be told apart where both match. -/
def clash : List (Token α K) → List (Token α K) → Bool
  | [], [] => true
  | .char c :: ts, .char d :: us => decide (c = d) && clash ts us
  | .param _ :: ts, .param _ :: us => clash ts us
  | .param _ :: _, .rest _ :: _ => true
  | .rest _ :: _, .param _ :: _ => true
  | .rest _ :: _, .rest _ :: _ => true
  | _, _ => false

theorem clash_comm (ts us : List (Token α K)) : clash ts us = clash us ts := by
  induction ts generalizing us with
  | nil =>
      cases us with
      | nil => rfl
      | cons u us => cases u <;> rfl
  | cons t ts ih =>
      cases us with
      | nil => cases t <;> rfl
      | cons u us => cases t <;> cases u <;> simp [clash, ih us, eq_comm]

/-- Of two patterns that match the same text, one is the more specific, or they clash. -/
theorem moreSpecific_total (hts : (matchTokens sep ts text).isSome = true)
    (hus : (matchTokens sep us text).isSome = true) :
    moreSpecific ts us = true ∨ moreSpecific us ts = true ∨ clash ts us = true := by
  induction ts generalizing us text with
  | nil =>
      obtain rfl := matchTokens_nil hts
      cases us with
      | nil => exact Or.inr (Or.inr rfl)
      | cons u us =>
          cases u with
          | char c => cases hus
          | param key => exact absurd rfl (matchTokens_param hus).1
          | rest key => exact absurd rfl (matchTokens_rest hus)
  | cons t ts ih =>
      cases us with
      | nil =>
          obtain rfl := matchTokens_nil hus
          cases t with
          | char c => cases hts
          | param key => exact absurd rfl (matchTokens_param hts).1
          | rest key => exact absurd rfl (matchTokens_rest hts)
      | cons u us =>
          cases t with
          | char c =>
              cases u with
              | char d =>
                  obtain ⟨text', rfl, hrest⟩ := matchTokens_char hts
                  obtain ⟨text'', htext, hrest'⟩ := matchTokens_char hus
                  obtain ⟨rfl, rfl⟩ := List.cons.inj htext
                  simpa [moreSpecific, clash] using ih hrest hrest'
              | param key => exact Or.inl rfl
              | rest key => exact Or.inl rfl
          | param key =>
              cases u with
              | char d => exact Or.inr (Or.inl rfl)
              | param key' => exact ih (matchTokens_param hts).2 (matchTokens_param hus).2
              | rest key' => exact Or.inr (Or.inr rfl)
          | rest key =>
              cases u with
              | char d => exact Or.inr (Or.inl rfl)
              | param key' => exact Or.inr (Or.inr rfl)
              | rest key' => exact Or.inr (Or.inr rfl)

end Matching

/-- Where the wildcards are. -/
def shape (ts : List (Token α K)) : List Bool := ts.map fun
  | .char _ => false
  | _ => true

/-- A more specific pattern comes before the other in the order of the shapes. -/
theorem shape_lt {ts us : List (Token α K)} (h : moreSpecific ts us = true) : shape ts < shape us := by
  induction ts generalizing us with
  | nil => cases us <;> cases h
  | cons t ts ih =>
      cases us with
      | nil => cases t <;> cases h
      | cons u us =>
          cases t with
          | char c =>
              cases u with
              | char d => exact List.Lex.cons (ih h)
              | param key => exact List.Lex.rel Bool.false_lt_true
              | rest key => exact List.Lex.rel Bool.false_lt_true
          | param key =>
              cases u with
              | char d => cases h
              | param key' => exact List.Lex.cons (ih h)
              | rest key' => cases h
          | rest key => cases u <;> cases h

/-! ### Patterns of pieces -/

def ofPiece : Piece K (List α) → List (Token α K)
  | .lit text => text.map .char
  | .param key => [.param key]

/-- Pieces, each behind a separator. -/
def separated (sep : α) (ps : List (Piece K (List α))) : List (Token α K) :=
  ps.flatMap fun p => .char sep :: ofPiece p

/-- Nothing, or something behind a separator. -/
def Opens (sep : α) {β : Type} (ofSep : α → β) (xs : List β) : Prop := xs = [] ∨ ∃ rest, xs = ofSep sep :: rest

theorem separated_opens (sep : α) (ps : List (Piece K (List α))) : Opens sep Token.char (separated sep ps) := by
  cases ps with
  | nil => exact Or.inl rfl
  | cons p ps => exact Or.inr ⟨_, rfl⟩

theorem flatMap_opens (sep : α) (texts : List (List α)) : Opens sep id (texts.flatMap (sep :: ·)) := by
  cases texts with
  | nil => exact Or.inl rfl
  | cons t texts => exact Or.inr ⟨_, rfl⟩

section Pieces

variable [DecidableEq α] {sep : α} {more : List (Token α K)} {after : List α}

/-- Static text matches the piece that is the same. -/
theorem matchTokens_lit (hmore : Opens sep Token.char more) (hafter : Opens sep id after) {text : List α}
    (htext : sep ∉ text) : ∀ {t : List α}, sep ∉ t →
      matchTokens sep (text.map .char ++ more) (t ++ after) = if text = t then matchTokens sep more after else none := by
  induction text with
  | nil =>
      intro t ht
      cases t with
      | nil => rfl
      | cons d t =>
          rw [if_neg (by simp)]
          obtain rfl | ⟨rest, rfl⟩ := hmore
          · rfl
          · have hd : sep ≠ d := fun h => ht (by simp [h])
            rw [List.map_nil, List.nil_append, List.cons_append, matchTokens, if_neg hd]
  | cons c text ih =>
      intro t ht
      have hc : c ≠ sep := fun h => htext (by simp [h])
      cases t with
      | nil =>
          rw [if_neg (by simp)]
          obtain rfl | ⟨rest, rfl⟩ := hafter
          · rfl
          · rw [List.map_cons, List.cons_append, List.nil_append, id_eq, matchTokens, if_neg hc]
      | cons d t =>
          rw [List.map_cons, List.cons_append, List.cons_append, matchTokens,
            ih (fun h => htext (List.mem_cons_of_mem _ h)) (fun h => ht (List.mem_cons_of_mem _ h))]
          by_cases hcd : c = d
          · simp [hcd]
          · simp [hcd]

/-- A parameter takes a piece that is not empty. -/
theorem matchTokens_piece (hafter : Opens sep id after) {key : K} {t : List α} (ht : sep ∉ t) :
    matchTokens sep (.param key :: more) (t ++ after)
      = if t = [] then none else (matchTokens sep more after).map fun bound => (key, t) :: bound := by
  have hall : ∀ c ∈ t, decide (c ≠ sep) = true := fun c hc => decide_eq_true fun h => ht (h ▸ hc)
  have htake : after.takeWhile (· ≠ sep) = [] := by
    obtain rfl | ⟨rest, rfl⟩ := hafter
    · rfl
    · simp
  have hdrop : after.dropWhile (· ≠ sep) = after := by
    obtain rfl | ⟨rest, rfl⟩ := hafter
    · rfl
    · simp
  rw [matchTokens, List.takeWhile_append_of_pos hall, List.dropWhile_append_of_pos hall, htake, hdrop,
    List.append_nil]

/-- Pieces behind separators match piece by piece. -/
theorem matchTokens_separated {ps : List (Piece K (List α))} (hlits : ∀ text, Piece.lit text ∈ ps → sep ∉ text) :
    ∀ {texts : List (List α)}, (∀ t ∈ texts, sep ∉ t) →
      matchTokens sep (separated sep ps) (texts.flatMap (sep :: ·)) = matchPieces (fun s => !s.isEmpty) ps texts := by
  induction ps with
  | nil =>
      intro texts _
      cases texts <;> rfl
  | cons p ps ih =>
      intro texts htexts
      cases texts with
      | nil => cases p <;> rfl
      | cons t texts =>
          have hrest := ih (fun text h => hlits text (List.mem_cons_of_mem _ h))
            fun t h => htexts t (List.mem_cons_of_mem _ h)
          have ht := htexts t (List.mem_cons_self ..)
          rw [separated, List.flatMap_cons, List.flatMap_cons, List.cons_append, List.cons_append, matchTokens,
            if_pos rfl]
          cases p with
          | lit text =>
              have hlit := matchTokens_lit (separated_opens sep ps) (flatMap_opens sep texts)
                (hlits text (List.mem_cons_self ..)) ht
              rw [hrest] at hlit
              exact hlit
          | param key =>
              have hparam : matchTokens sep (.param key :: separated sep ps) (t ++ texts.flatMap (sep :: ·)) = _ :=
                matchTokens_piece (flatMap_opens sep texts) ht
              rw [hrest] at hparam
              refine hparam.trans ?_
              rw [matchPieces]
              cases t <;> rfl

/-- A pattern of pieces between separators matches piece by piece. -/
theorem matchTokens_pieces {p : Piece K (List α)} {ps : List (Piece K (List α))} {t : List α} {texts : List (List α)}
    (hlits : ∀ text, Piece.lit text ∈ p :: ps → sep ∉ text) (htexts : ∀ t' ∈ t :: texts, sep ∉ t') :
    matchTokens sep (ofPiece p ++ separated sep ps) (t ++ texts.flatMap (sep :: ·))
      = matchPieces (fun s => !s.isEmpty) (p :: ps) (t :: texts) := by
  have h := matchTokens_separated hlits htexts
  rw [separated, List.flatMap_cons, List.flatMap_cons, List.cons_append, List.cons_append, matchTokens,
    if_pos rfl] at h
  exact h

end Pieces

end Wildcards
