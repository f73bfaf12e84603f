/-
Paths in pieces.

`parse_segments` drops the empty segments of a path, and `colon_to_brace` keeps
those behind the first that is not.  Both are read off the path split at its
slashes, `pieces`: the segments are the pieces that are not empty, and the path
given to `matchit` is a slash and the pieces joined again, less the empty ones in
front.
-/
import Mahalo.Router.Router

namespace Mahalo.Router

/-! ### Splitting at slashes -/

theorem intercalate_append_left {α : Type} (sep a b : List α) (rest : List (List α)) :
    sep.intercalate ((a ++ b) :: rest) = a ++ sep.intercalate (b :: rest) := by
  cases rest with
  | nil => simp
  | cons c rest => simp [List.intercalate_cons_cons]

/-- The path split at its slashes. -/
def pieces (path : String) : List (List Char) := path.toList.splitOn '/'

theorem slash_not_mem_pieces {path : String} : ∀ piece ∈ pieces path, '/' ∉ piece := by
  unfold pieces
  rw [← RustStd.split_eq_splitOn]
  exact RustStd.not_mem_of_mem_split

/-- The pieces that are not empty. -/
def segmentsOf (path : List Char) : List (List Char) := (path.splitOn '/').filter fun s => !s.isEmpty

theorem parseSegments_eq (path : String) :
    parseSegments path = (segmentsOf path.toList).map String.ofList := by
  unfold parseSegments segmentsOf
  rw [RustStd.split_eq_splitOn]

theorem segmentsOf_append (a b : List Char) :
    segmentsOf (a ++ '/' :: b) = segmentsOf a ++ segmentsOf b := by
  unfold segmentsOf
  rw [List.splitOn_append_cons_self, List.filter_append]

theorem segmentsOf_nil : segmentsOf [] = [] := rfl

theorem segmentsOf_cons (b : List Char) : segmentsOf ('/' :: b) = segmentsOf b :=
  segmentsOf_append [] b

/-! ### `colon_to_brace` -/

/-- A segment as `matchit` is given it. -/
def braced (segment : List Char) : List Char :=
  match RustStd.stripPrefix segment [':'] with
  | some param => ['\x7b'] ++ param ++ ['\x7d']
  | none => segment

theorem braced_ne_nil {segment : List Char} (h : segment ≠ []) : braced segment ≠ [] := by
  unfold braced
  cases RustStd.stripPrefix segment [':'] with
  | none => exact h
  | some param => simp

theorem slash_not_mem_braced {segment : List Char} (h : '/' ∉ segment) : '/' ∉ braced segment := by
  unfold braced RustStd.stripPrefix
  by_cases hs : RustStd.startsWith segment [':']
  · rw [if_pos hs]
    have : '/' ∉ segment.drop 1 := fun hmem => h (List.mem_of_mem_drop hmem)
    simpa using this
  · rw [if_neg hs]
    exact h

/-- One round of the loop of `colon_to_brace`. -/
private def addSegment (result segment : List Char) : List Char :=
  (if result.isEmpty then [] else result ++ ['/']) ++ braced segment

private theorem addSegment_eq (leading : Bool) (result segment : List Char) :
    (let result := if !result.isEmpty || leading then
        if !result.isEmpty then result ++ ['/'] else result
      else result
    match RustStd.stripPrefix segment [':'] with
    | some param => result ++ ['\x7b'] ++ param ++ ['\x7d']
    | none => result ++ segment) = addSegment result segment := by
  unfold addSegment braced
  cases result with
  | nil => cases leading <;> cases RustStd.stripPrefix segment [':'] <;> rfl
  | cons c rest => cases RustStd.stripPrefix segment [':'] <;> simp

/-- The leading slash that `colon_to_brace` sees to. -/
private def withSlash (result : List Char) : String :=
  String.ofList (if RustStd.startsWith result ['/'] then result else '/' :: result)

private theorem colonToBrace_fold (path : String) :
    colonToBrace path = withSlash ((pieces path).foldl addSegment []) := by
  unfold colonToBrace pieces
  rw [RustStd.split_eq_splitOn]
  exact congrArg (fun step => withSlash ((path.toList.splitOn '/').foldl step []))
    (funext fun result => funext fun segment => addSegment_eq _ result segment)

private theorem foldl_addSegment_of_ne_nil (ss : List (List Char)) :
    ∀ {result : List Char}, result ≠ [] →
      ss.foldl addSegment result = ['/'].intercalate (result :: ss.map braced) := by
  induction ss with
  | nil => intro result _; simp
  | cons s ss ih =>
      intro result hresult
      have hstep : addSegment result s = (result ++ ['/']) ++ braced s := by
        unfold addSegment
        rw [if_neg (by simpa using hresult)]
      rw [List.foldl_cons, hstep, ih (by simp), intercalate_append_left, List.map_cons,
        List.intercalate_cons_cons]

/-- Empty segments in front leave no trace. -/
private theorem foldl_addSegment (ss : List (List Char)) :
    ss.foldl addSegment [] = ['/'].intercalate ((ss.dropWhile List.isEmpty).map braced) := by
  induction ss with
  | nil => rfl
  | cons s ss ih =>
      rw [List.foldl_cons]
      by_cases hs : s = []
      · subst hs
        rw [List.dropWhile_cons_of_pos rfl]
        exact ih
      · rw [List.dropWhile_cons_of_neg (by simpa using hs)]
        exact foldl_addSegment_of_ne_nil ss (braced_ne_nil hs)

/-- What `matchit` is given: the pieces from the first that is not empty on. -/
def matchitPieces (path : String) : List (List Char) := (pieces path).dropWhile List.isEmpty

theorem slash_not_mem_matchitPieces {path : String} : ∀ piece ∈ matchitPieces path, '/' ∉ piece :=
  fun piece hpiece => slash_not_mem_pieces piece ((List.dropWhile_sublist _).subset hpiece)

theorem head_matchitPieces {path : String} {s : List Char} {rest : List (List Char)}
    (h : matchitPieces path = s :: rest) : s ≠ [] ∧ '/' ∉ s := by
  refine ⟨?_, slash_not_mem_matchitPieces s (by rw [h]; exact List.mem_cons_self ..)⟩
  have hhead := List.head?_dropWhile_not List.isEmpty (pieces path)
  unfold matchitPieces at h
  rw [h] at hhead
  simpa using hhead

theorem colonToBrace_eq (path : String) :
    colonToBrace path = String.ofList ('/' :: ['/'].intercalate ((matchitPieces path).map braced)) := by
  rw [colonToBrace_fold, foldl_addSegment]
  change String.ofList (if RustStd.startsWith (['/'].intercalate ((matchitPieces path).map braced)) ['/']
    then _ else _) = _
  rw [if_neg]
  · rfl
  · cases hpieces : matchitPieces path with
    | nil => decide
    | cons s rest =>
        obtain ⟨hs, hslash⟩ := head_matchitPieces hpieces
        obtain ⟨c, cs, hbraced⟩ := List.exists_cons_of_ne_nil (braced_ne_nil hs)
        have hc : '/' ≠ c := by
          intro hc
          exact slash_not_mem_braced hslash (by rw [hbraced, hc]; exact List.mem_cons_self ..)
        rw [List.map_cons, hbraced, List.intercalate_cons_cons_left]
        simp [RustStd.startsWith, List.isPrefixOf, hc]

/-! ### Paths joined again -/

/-- A slash, and the segments with slashes between them. -/
def rooted (segments : List (List Char)) : String :=
  String.ofList ('/' :: ['/'].intercalate segments)

theorem pieces_rooted {segments : List (List Char)} (hne : segments ≠ [])
    (hslash : ∀ s ∈ segments, '/' ∉ s) : pieces (rooted segments) = [] :: segments := by
  unfold pieces rooted
  rw [String.toList_ofList, List.splitOn_cons_eq_if_modifyHead, if_pos (by simp),
    List.splitOn_intercalate '/' hslash hne]

end Mahalo.Router
