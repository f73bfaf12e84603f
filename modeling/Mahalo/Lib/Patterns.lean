/-
Patterns of pieces, each a fixed text or a parameter.

A pattern matches a list of texts piece by piece and binds every parameter to the
text in its place, if that text is one a parameter may stand for.
-/
import Mathlib.Data.List.Lex
import Mathlib.Order.BooleanAlgebra.Basic

namespace Patterns

variable {K S : Type}

inductive Piece (K S : Type) where
  | lit (text : S)
  | param (key : K)
  deriving DecidableEq, Repr

namespace Piece

def key? : Piece K S → Option K
  | lit _ => none
  | param key => some key

def isParam : Piece K S → Bool
  | lit _ => false
  | param _ => true

/-- What stands in the piece's place when the parameters have these values. -/
def fill (value : K → S) : Piece K S → S
  | lit text => text
  | param key => value key

end Piece

def keys (ps : List (Piece K S)) : List K := ps.filterMap Piece.key?

@[simp] theorem keys_nil : keys ([] : List (Piece K S)) = [] := rfl

@[simp] theorem keys_lit (text : S) (ps : List (Piece K S)) : keys (.lit text :: ps) = keys ps := rfl

@[simp] theorem keys_param (key : K) (ps : List (Piece K S)) :
    keys (.param key :: ps) = key :: keys ps := rfl

/-- The texts a pattern stands for, one for each piece, and the bindings of its parameters. -/
def matchPieces [DecidableEq S] (ok : S → Bool) : List (Piece K S) → List S → Option (List (K × S))
  | [], [] => some []
  | .lit text :: ps, s :: rest => if text = s then matchPieces ok ps rest else none
  | .param key :: ps, s :: rest =>
      if ok s then (matchPieces ok ps rest).map fun bound => (key, s) :: bound else none
  | _, _ => none

section Matching

variable [DecidableEq S] {ok : S → Bool}

/-- Filled in with values that parameters may stand for, a pattern matches, and binds them. -/
theorem matchPieces_fill {ps : List (Piece K S)} {value : K → S} (h : ∀ k ∈ keys ps, ok (value k)) :
    matchPieces ok ps (ps.map (Piece.fill value)) = some ((keys ps).map fun k => (k, value k)) := by
  induction ps with
  | nil => rfl
  | cons p ps ih =>
      cases p with
      | lit text => simpa [matchPieces, Piece.fill] using ih h
      | param key =>
          have hkey : ok (value key) := h key (by simp)
          have hrest := ih fun k hk => h k (by simp [hk])
          simp only [List.map_cons, Piece.fill, matchPieces, hkey, if_true, hrest]
          rfl

/-- What a match says, piece by piece. -/
theorem matchPieces_cons {p : Piece K S} {ps : List (Piece K S)} {texts : List S}
    {bound : List (K × S)} (h : matchPieces ok (p :: ps) texts = some bound) :
    ∃ s rest bound', texts = s :: rest ∧ matchPieces ok ps rest = some bound' ∧
      ((p = .lit s ∧ bound = bound') ∨ ∃ key, p = .param key ∧ bound = (key, s) :: bound') := by
  cases texts with
  | nil => cases p <;> cases h
  | cons s rest =>
      cases p with
      | lit text =>
          by_cases hs : text = s
          · rw [matchPieces, if_pos hs] at h
            exact ⟨s, rest, bound, rfl, h, Or.inl ⟨by rw [hs], rfl⟩⟩
          · rw [matchPieces, if_neg hs] at h
            cases h
      | param key =>
          by_cases hs : ok s
          · rw [matchPieces, if_pos hs] at h
            obtain ⟨bound', hbound', hcons⟩ := Option.map_eq_some_iff.mp h
            exact ⟨s, rest, bound', rfl, hbound', Or.inr ⟨key, rfl, hcons.symm⟩⟩
          · rw [matchPieces, if_neg hs] at h
            cases h

theorem matchPieces_lit {text : S} {ps : List (Piece K S)} {texts : List S} {bound : List (K × S)}
    (h : matchPieces ok (.lit text :: ps) texts = some bound) :
    ∃ rest, texts = text :: rest ∧ matchPieces ok ps rest = some bound := by
  obtain ⟨s, rest, bound', rfl, hrest, ⟨hs, rfl⟩ | ⟨key, hkey, -⟩⟩ := matchPieces_cons h
  · cases hs
    exact ⟨rest, rfl, hrest⟩
  · cases hkey

/-- The pattern matches nothing that begins with these texts. -/
def clashes : List (Piece K S) → List S → Bool
  | _, [] => false
  | [], _ :: _ => true
  | .lit text :: ps, s :: rest => decide (text ≠ s) || clashes ps rest
  | .param _ :: ps, _ :: rest => clashes ps rest

theorem matchPieces_clashes {ps : List (Piece K S)} {front : List S} (h : clashes ps front = true)
    (rest : List S) : matchPieces ok ps (front ++ rest) = none := by
  induction front generalizing ps with
  | nil => cases ps <;> cases h
  | cons s front ih =>
      cases ps with
      | nil => rfl
      | cons p ps =>
          rw [List.cons_append]
          cases p with
          | lit text =>
              unfold clashes at h
              unfold matchPieces
              by_cases hs : text = s
              · rw [if_pos hs]
                exact ih (by simpa [hs] using h)
              · rw [if_neg hs]
          | param key =>
              unfold clashes at h
              unfold matchPieces
              rw [ih h]
              split <;> rfl

theorem matchPieces_length {ps : List (Piece K S)} :
    ∀ {texts : List S} {bound : List (K × S)}, matchPieces ok ps texts = some bound →
      ps.length = texts.length := by
  induction ps with
  | nil =>
      intro texts bound h
      cases texts with
      | nil => rfl
      | cons s rest => cases h
  | cons p ps ih =>
      intro texts bound h
      obtain ⟨s, rest, bound', rfl, hrest, -⟩ := matchPieces_cons h
      simp [ih hrest]

/-- A match binds the pattern's keys, in their order. -/
theorem matchPieces_keys {ps : List (Piece K S)} :
    ∀ {texts : List S} {bound : List (K × S)}, matchPieces ok ps texts = some bound →
      bound.map Prod.fst = keys ps := by
  induction ps with
  | nil =>
      intro texts bound h
      cases texts with
      | nil => cases h; rfl
      | cons s rest => cases h
  | cons p ps ih =>
      intro texts bound h
      obtain ⟨s, rest, bound', -, hrest, ⟨rfl, rfl⟩ | ⟨key, rfl, rfl⟩⟩ := matchPieces_cons h
      · exact ih hrest
      · rw [List.map_cons, ih hrest]
        rfl

end Matching

/-! ### What two patterns have in common -/

/-- Which pieces are parameters. -/
def shape (ps : List (Piece K S)) : List Bool := ps.map Piece.isParam

/-- The pattern without the keys of its parameters. -/
def anonymous (ps : List (Piece K S)) : List (Piece Unit S) :=
  ps.map fun
    | .lit text => .lit text
    | .param _ => .param ()

end Patterns
