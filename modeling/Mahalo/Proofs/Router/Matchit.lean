/-
What `matchit` is relied on for.

A path given to it is a pattern: a segment `{name}` is a parameter, any other is
static text.  `Segmentwise` is all that reverse routing needs: a path is found
exactly when an inserted one matches it segment by segment.
-/
import Mathlib.Data.List.MinMax
import Mahalo.Proofs.Router.Paths
import Mahalo.Lib.Patterns

namespace Mahalo.Router

open Patterns

/-! ### What `matchit` matches -/

/-- The name in a segment of the form `{name}`. -/
def bracedName (segment : List Char) : Option (List Char) :=
  (RustStd.stripPrefix segment ['\x7b']).bind fun rest =>
    if RustStd.endsWith rest ['\x7d'] then some rest.dropLast else none

/-- A segment of a path given to `matchit`: a parameter, or static text. -/
def pieceOf (segment : List Char) : Piece String (List Char) :=
  match bracedName segment with
  | some name => .param (String.ofList name)
  | none => .lit segment

def patternOf (pattern : String) : List (Piece String (List Char)) := (pieces pattern).map pieceOf

/-- The parameters, where the pattern matches: each stands for one segment that is not empty. -/
def matchPattern (pattern path : String) : Option PathParams :=
  (matchPieces (fun s => !s.isEmpty) (patternOf pattern) (pieces path)).map fun bound =>
    bound.map fun (key, value) => (key, String.ofList value)

theorem patternOf_rooted {segments : List (List Char)} (hne : segments ≠ [])
    (hslash : ∀ s ∈ segments, '/' ∉ s) :
    patternOf (rooted segments) = .lit [] :: segments.map pieceOf := by
  unfold patternOf
  rw [pieces_rooted hne hslash]
  rfl

/-! ### Declared parameters -/

/-- A segment as it is declared: `:name` for a parameter. -/
def declaredPiece (segment : List Char) : Piece String (List Char) :=
  match RustStd.stripPrefix segment [':'] with
  | some name => .param (String.ofList name)
  | none => .lit segment

/-- Between braces is what `colon_to_brace` put there. -/
theorem bracedName_braces (name : List Char) :
    bracedName (['\x7b'] ++ name ++ ['\x7d']) = some name := by
  unfold bracedName
  rw [List.append_assoc, RustStd.stripPrefix_eq_some.mpr rfl]
  have hends : RustStd.endsWith (name ++ ['\x7d']) ['\x7d'] = true := by
    simp [RustStd.endsWith, List.isSuffixOf_iff_suffix]
  rw [Option.bind_some, if_pos hends, List.dropLast_concat]

/-- What `matchit` makes of a declared segment: only static text in braces is taken for something else. -/
theorem pieceOf_braced (segment : List Char) :
    pieceOf (braced segment)
      = (bracedName segment).elim (declaredPiece segment) fun name => .param (String.ofList name) := by
  cases hs : RustStd.stripPrefix segment [':'] with
  | none =>
      have hbraced : braced segment = segment := by unfold braced; rw [hs]
      have hdeclared : declaredPiece segment = .lit segment := by unfold declaredPiece; rw [hs]
      rw [hbraced, hdeclared]
      unfold pieceOf
      cases bracedName segment <;> rfl
  | some name =>
      have hbraced : braced segment = ['\x7b'] ++ name ++ ['\x7d'] := by unfold braced; rw [hs]
      have hdeclared : declaredPiece segment = .param (String.ofList name) := by
        unfold declaredPiece
        rw [hs]
      have hnone : bracedName segment = none := by
        rw [RustStd.stripPrefix_eq_some.mp hs]
        simp [bracedName, RustStd.stripPrefix, RustStd.startsWith, List.isPrefixOf]
      rw [hbraced, hdeclared, hnone]
      unfold pieceOf
      rw [bracedName_braces]
      rfl

theorem extractParamKeys_eq (segments : List (List Char)) :
    extractParamKeys (segments.map String.ofList) = keys (segments.map declaredPiece) := by
  unfold extractParamKeys keys
  rw [List.filterMap_map, List.filterMap_map]
  congr 1
  funext segment
  simp only [Function.comp, String.toList_ofList, declaredPiece]
  cases RustStd.stripPrefix segment [':'] <;> rfl

/-! ### Which of them it finds -/

/-- Each path was taken after those in front of it. -/
def Accepted (matchit : Matchit) (router : Inserted) : Prop :=
  ∀ before entry after, router = before ++ entry :: after → matchit.accepts before entry.1 = true

theorem accepted_nil (matchit : Matchit) : Accepted matchit [] := by
  intro before entry after h
  cases before <;> cases h

theorem accepted_append {matchit : Matchit} {router : Inserted} {entry : String × Nat}
    (h : Accepted matchit router) (hentry : matchit.accepts router entry.1 = true) :
    Accepted matchit (router ++ [entry]) := by
  intro before e after heq
  rcases List.eq_nil_or_concat after with rfl | ⟨rest, last, rfl⟩
  · obtain ⟨rfl, he⟩ := List.append_inj' heq rfl
    obtain rfl : entry = e := by simpa using he
    exact hentry
  · rw [List.concat_eq_append, ← List.cons_append, ← List.append_assoc] at heq
    exact h before e rest (List.append_inj' heq rfl).1

/-- A path is found if and only if one that was inserted matches it, segment by segment. -/
structure Segmentwise (matchit : Matchit) : Prop where
  sound : ∀ {router : Inserted} {path : String} {idx : Nat} {params : PathParams},
    Accepted matchit router → matchit.find router path = some (idx, params) →
      ∃ pattern, (pattern, idx) ∈ router ∧ matchPattern pattern path = some params
  complete : ∀ {router : Inserted} {path pattern : String} {idx : Nat},
    Accepted matchit router → (pattern, idx) ∈ router → (matchPattern pattern path).isSome →
      (matchit.find router path).isSome

/-- A router that does so: it looks at every path that was inserted. -/
def byPriority : Matchit where
  accepts := fun router path =>
    router.all fun entry => anonymous (patternOf entry.1) ≠ anonymous (patternOf path)
  find := fun router path =>
    ((router.filter fun entry => (matchPattern entry.1 path).isSome).argmin
      fun entry => shape (patternOf entry.1)).bind fun entry =>
        (matchPattern entry.1 path).map fun params => (entry.2, params)

theorem byPriority_segmentwise : Segmentwise byPriority where
  sound := by
    intro router path idx params _ hfind
    obtain ⟨entry, hmin, hentry⟩ := Option.bind_eq_some_iff.mp hfind
    obtain ⟨found, hfound, heq⟩ := Option.map_eq_some_iff.mp hentry
    obtain ⟨rfl, rfl⟩ := Prod.mk.inj heq
    have hmem := List.mem_filter.mp (List.argmin_mem (Option.mem_def.mpr hmin))
    exact ⟨entry.1, hmem.1, hfound⟩
  complete := by
    intro router path pattern idx _ hmem hmatch
    have hin : (pattern, idx) ∈ router.filter fun entry => (matchPattern entry.1 path).isSome :=
      List.mem_filter.mpr ⟨hmem, hmatch⟩
    cases hmin : (router.filter fun entry => (matchPattern entry.1 path).isSome).argmin
        fun entry => shape (patternOf entry.1) with
    | none =>
        rw [List.argmin_eq_none.mp hmin] at hin
        cases hin
    | some entry =>
        have hentry := (List.mem_filter.mp (List.argmin_mem (Option.mem_def.mpr hmin))).2
        obtain ⟨params, hparams⟩ := Option.isSome_iff_exists.mp hentry
        have hfind : byPriority.find router path = some (entry.2, params) :=
          Option.bind_eq_some_iff.mpr ⟨entry, hmin, by rw [hparams]; rfl⟩
        rw [hfind]
        rfl

end Mahalo.Router
